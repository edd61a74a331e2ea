import Keyser.MainMenu

namespace Keyser.Tokenizer
open Hex MainMenu

-- The lines without a token: white space and empty quotes, and an open quote at the end.
inductive Blank : Text → Prop where
  | nil : Blank []
  | space : isspace c = true → Blank rest → Blank (c :: rest)
  | quotes : isquote mark = true → Blank rest → Blank (mark :: mark :: rest)
  | unclosed : isquote mark = true → Blank [mark]

variable {quote : Option Char} {mark c : Char} {current text rest : Text} {args : List Text}

theorem quote_plain (quoted : isquote mark = true) : isspace mark = false ∧ mark ≠ backslash := by
  simp only [isquote,Bool.or_eq_true,decide_eq_true_eq] at quoted
  have same : mark = Char.ofNat mark.toNat := (Char.ofNat_toNat mark).symm
  rcases quoted with value | value <;> rw [value] at same <;> subst same <;> decide

-- The steps of the scanner, one for each branch.
theorem parse_close : parseFrom (some mark) current args (mark :: rest) = parseFrom none current args rest := by
  rw [parseFrom.eq_def]
  simp

theorem parse_escape (other : mark ≠ backslash) :
    parseFrom (some mark) current args (backslash :: c :: rest) = parseFrom (some mark) (current ++ [c]) args rest := by
  simp [parseFrom,other.symm]

theorem parse_inside (inside : c ≠ mark) (plain : c ≠ backslash) :
    parseFrom (some mark) current args (c :: rest) = parseFrom (some mark) (current ++ [c]) args rest := by
  rw [parseFrom.eq_def]
  simp [inside,plain]

theorem parse_open (quoted : isquote mark = true) :
    parseFrom none current args (mark :: rest) = parseFrom (some mark) current args rest := by
  simp [parseFrom,quoted,(quote_plain quoted).1]

theorem parse_skip (space : isspace c = true) : parseFrom none [] args (c :: rest) = parseFrom none [] args rest := by
  simp [parseFrom,space]

theorem parse_break (space : isspace c = true) (nonempty : current ≠ []) :
    parseFrom none current args (c :: rest) = parseFrom none [] (args ++ [current]) rest := by
  simp [parseFrom,space,nonempty]

theorem parse_end (nonempty : current ≠ []) : parseFrom quote current args [] = args ++ [current] := by
  simp [parseFrom,nonempty]

-- What has been begun is never dropped.
theorem parse_begun (begun : current ≠ [] ∨ args ≠ []) : parseFrom quote current args text ≠ [] := by
  induction quote, current, args, text using parseFrom.induct with
  | case1 quote current args empty =>
      rw [List.isEmpty_iff] at empty
      simpa [parseFrom,empty] using begun
  | case2 quote current args nonempty => simp [parseFrom,nonempty]
  | case3 current args rest mark ih => rw [parse_close]; exact ih begun
  | case4 current args mark other ih =>
      rw [parseFrom]
      simpa [other] using ih (.inl (by simp))
  | case5 current args mark next rest other ih =>
      rw [parse_escape fun same => other same.symm]
      exact ih (.inl (by simp))
  | case6 current args c rest mark inside plain ih => rw [parse_inside inside plain]; exact ih (.inl (by simp))
  | case7 current args c rest space empty ih =>
      rw [List.isEmpty_iff] at empty
      subst empty
      rw [parse_skip space]
      exact ih begun
  | case8 current args c rest space nonempty ih =>
      rw [parse_break space (by simpa using nonempty)]
      exact ih (.inr (by simp))
  | case9 current args c rest plain quoted ih => rw [parse_open quoted]; exact ih begun
  | case10 current args c rest plain unquoted ih =>
      rw [parseFrom]
      simpa [plain,unquoted] using ih (.inl (by simp))

-- What has been begun is all that an argument is made of.
theorem parse_tokens (tokens : ∀ arg ∈ args, arg ≠ []) : ∀ arg ∈ parseFrom quote current args text, arg ≠ [] := by
  induction quote, current, args, text using parseFrom.induct with
  | case1 quote current args empty => simpa [parseFrom,empty] using tokens
  | case2 quote current args nonempty =>
      rw [List.isEmpty_iff] at nonempty
      rw [parse_end nonempty]
      simpa [or_imp,forall_and,nonempty] using tokens
  | case3 current args rest mark ih => rw [parse_close]; exact ih tokens
  | case4 current args mark other ih =>
      rw [parseFrom]
      simpa [other] using ih tokens
  | case5 current args mark next rest other ih =>
      rw [parse_escape fun same => other same.symm]
      exact ih tokens
  | case6 current args c rest mark inside plain ih => rw [parse_inside inside plain]; exact ih tokens
  | case7 current args c rest space empty ih =>
      rw [List.isEmpty_iff] at empty
      subst empty
      rw [parse_skip space]
      exact ih tokens
  | case8 current args c rest space nonempty ih =>
      rw [List.isEmpty_iff] at nonempty
      rw [parse_break space nonempty]
      exact ih (by simpa [or_imp,forall_and,nonempty] using tokens)
  | case9 current args c rest plain quoted ih => rw [parse_open quoted]; exact ih tokens
  | case10 current args c rest plain unquoted ih =>
      rw [parseFrom]
      simpa [plain,unquoted] using ih tokens

theorem blank_parse (blank : Blank text) : parseFrom none [] [] text = [] := by
  induction blank with
  | nil => rfl
  | space space _ ih => rw [parse_skip space]; exact ih
  | quotes quoted _ ih => rw [parse_open quoted,parse_close]; exact ih
  | unclosed quoted => rw [parse_open quoted]; rfl

theorem parse_blank : ∀ text, parseFrom none [] [] text = [] → Blank text
  | [],_ => .nil
  | c :: rest,parsed => by
      by_cases space : isspace c = true
      · rw [parse_skip space] at parsed
        exact .space space (parse_blank rest parsed)
      · by_cases quoted : isquote c = true
        · rw [parse_open quoted] at parsed
          match rest with
          | [] => exact .unclosed quoted
          | next :: rest =>
              by_cases closing : next = c
              · subst closing
                rw [parse_close] at parsed
                exact .quotes quoted (parse_blank rest parsed)
              · by_cases escape : next = backslash
                · subst escape
                  match rest with
                  | [] => simp [parseFrom,closing] at parsed
                  | after :: rest =>
                      rw [parse_escape (Ne.symm closing)] at parsed
                      exact absurd parsed (parse_begun (.inl (by simp)))
                · rw [parse_inside closing escape] at parsed
                  exact absurd parsed (parse_begun (.inl (by simp)))
        · have plain : parseFrom none [] [] (c :: rest) = parseFrom none [c] [] rest := by
            simp [parseFrom,space,quoted]
          rw [plain] at parsed
          exact absurd parsed (parse_begun (.inl (by simp)))

theorem parseCmd_nil_iff : parseCmd text = [] ↔ Blank text :=
  ⟨parse_blank text,blank_parse⟩

abbrev Gap := {gap : Text // ∀ c ∈ gap, isspace c = true}

theorem parse_gap (gap : Gap) : parseFrom none [] args (gap.val ++ rest) = parseFrom none [] args rest := by
  obtain ⟨gap,spaces⟩ := gap
  induction gap with
  | nil => rfl
  | cons c gap ih =>
      rw [List.cons_append,parse_skip (spaces c (List.mem_cons_self ..))]
      exact ih fun other member => spaces other (List.mem_cons_of_mem _ member)

-- An argument as it is typed: the text inside one pair of quotes of either kind.
structure Argument where
  mark : Char
  quoted : isquote mark = true
  text : Text
  nonempty : text ≠ []

def escaped (mark : Char) (text : Text) : Text :=
  text.flatMap fun c => if c = mark ∨ c = backslash then [backslash,c] else [c]

def Argument.typed (argument : Argument) : Text :=
  argument.mark :: (escaped argument.mark argument.text ++ [argument.mark])

theorem parse_escaped (quoted : isquote mark = true) (text : Text) :
    parseFrom (some mark) current args (escaped mark text ++ mark :: rest) =
      parseFrom none (current ++ text) args rest := by
  induction text generalizing current with
  | nil => simp only [escaped,List.flatMap_nil,List.nil_append,List.append_nil,parse_close]
  | cons c text ih =>
      have other := (quote_plain quoted).2
      have later : parseFrom (some mark) (current ++ [c]) args (escaped mark text ++ mark :: rest) =
          parseFrom none (current ++ c :: text) args rest := by
        rw [ih,List.append_assoc]
        rfl
      rw [escaped,List.flatMap_cons,List.append_assoc,← escaped]
      by_cases special : c = mark ∨ c = backslash
      · rw [if_pos special,List.cons_append,List.cons_append,List.nil_append,parse_escape other]
        exact later
      · obtain ⟨inside,plain⟩ := not_or.mp special
        rw [if_neg special,List.cons_append,List.nil_append,parse_inside inside plain]
        exact later

theorem parse_typed (argument : Argument) (rest : Text) :
    parseFrom none [] args (argument.typed ++ rest) = parseFrom none argument.text args rest := by
  rw [Argument.typed,List.cons_append,parse_open argument.quoted,List.append_assoc]
  exact parse_escaped argument.quoted argument.text

-- Every argument but the last has white space behind it.
def Separated (arguments : List (Argument × Gap)) : Prop := ∀ typed ∈ arguments.dropLast, typed.2.val ≠ []

def lineOf (arguments : List (Argument × Gap)) : Text := arguments.flatMap fun typed => typed.1.typed ++ typed.2.val

theorem parse_token (nonempty : current ≠ []) (gap : Gap) (apart : gap.val ≠ [] ∨ rest = []) :
    parseFrom none current args (gap.val ++ rest) = parseFrom none [] (args ++ [current]) rest := by
  obtain ⟨gap,spaces⟩ := gap
  cases gap with
  | nil =>
      obtain rfl : rest = [] := by simpa using apart
      simp [parse_end nonempty,parseFrom]
  | cons c gap =>
      rw [List.cons_append,parse_break (spaces c (List.mem_cons_self ..)) nonempty]
      exact parse_gap ⟨gap,fun other member => spaces other (List.mem_cons_of_mem _ member)⟩

theorem parse_line (arguments : List (Argument × Gap)) (separated : Separated arguments) :
    parseFrom none [] args (lineOf arguments) = args ++ arguments.map fun typed => typed.1.text := by
  induction arguments generalizing args with
  | nil => simp [lineOf,parseFrom]
  | cons typed arguments ih =>
      obtain ⟨argument,gap⟩ := typed
      have apart : gap.val ≠ [] ∨ lineOf arguments = [] := by
        cases arguments with
        | nil => exact .inr rfl
        | cons next arguments => exact .inl (separated _ (List.mem_cons_self ..))
      have later : Separated arguments := by
        cases arguments with
        | nil => nofun
        | cons next arguments => exact fun other member => separated other (List.mem_cons_of_mem _ member)
      rw [lineOf,List.flatMap_cons,List.append_assoc,← lineOf,parse_typed,parse_token argument.nonempty gap apart,
        ih later,List.append_assoc]
      rfl

theorem parseCmd_typed (leading : Gap) (arguments : List (Argument × Gap)) (separated : Separated arguments) :
    parseCmd (leading.val ++ lineOf arguments) = arguments.map fun typed => typed.1.text := by
  rw [parseCmd,parse_gap,parse_line arguments separated]
  rfl

def inDouble : Argument := ⟨Char.ofNat 34,rfl,['a',' ',Char.ofNat 34,Char.ofNat 39,backslash],by simp⟩
def inSingle : Argument := ⟨Char.ofNat 39,rfl,[Char.ofNat 39,' '],by simp⟩

theorem parseCmd_typed_two :
    parseCmd ([' '] ++ lineOf [(inDouble,⟨[' '],by simp [isspace]⟩),(inSingle,⟨[],nofun⟩)]) =
      [inDouble.text,inSingle.text] :=
  parseCmd_typed ⟨[' '],by simp [isspace]⟩ [(inDouble,⟨[' '],by simp [isspace]⟩),(inSingle,⟨[],nofun⟩)]
    (by simp [Separated])

end Keyser.Tokenizer
