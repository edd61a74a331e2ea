import Keyser.Hex

namespace Keyser.MainMenu
open Hex

def isquote (c : Char) : Bool := c.toNat = 34 || c.toNat = 39

def backslash : Char := Char.ofNat 92

-- The loop of parse_cmd; `quote` is the open quote, if there is one.
def parseFrom (quote : Option Char) (current : Text) (args : List Text) : Text → List Text
  | [] => if current.isEmpty then args else args ++ [current]
  | c :: rest =>
    match quote with
    | some mark =>
      if c = mark then parseFrom none current args rest
      else if c = backslash then
        match rest with
        | [] => parseFrom quote (current ++ [c]) args []
        | next :: rest => parseFrom quote (current ++ [next]) args rest
      else parseFrom quote (current ++ [c]) args rest
    | none =>
      if isspace c then
        if current.isEmpty then parseFrom none current args rest else parseFrom none [] (args ++ [current]) rest
      else if isquote c then parseFrom (some c) current args rest
      else parseFrom none (current ++ [c]) args rest

def parseCmd (input : Text) : List Text := parseFrom none [] [] input

inductive Mode where
  | log
  | connections
  | blocks
  deriving DecidableEq

-- The time of a LogMessage is the clock's and is left out.
structure Menu where
  mMode : Mode
  mText : Text
  mLog : List Text
  deriving DecidableEq

def freshMenu : Menu := ⟨.log,[],[]⟩

def Menu.log (menu : Menu) (text : Text) : Menu := {menu with mLog := menu.mLog ++ [text]}

inductive Request where
  | ping
  | startServer
  | shutdown
  deriving DecidableEq

-- `none` is the out_of_range of args.at(0) on a line without a token.
def handleInput (menu : Menu) (text : Text) : Option (Menu × Option Request) :=
  if text.isEmpty then some (menu,none) else
    (parseCmd text).head?.map fun cmd =>
      if cmd = "/help".toList then (menu,none)
      else if cmd = "/log".toList then ({menu with mMode := .log},none)
      else if cmd = "/connections".toList then ({menu with mMode := .connections},none)
      else if cmd = "/ping".toList then (menu,some .ping)
      else if cmd = "/startserver".toList then (menu,some .startServer)
      else if cmd = "/shutdown".toList then (menu,some .shutdown)
      else if cmd.isEmpty then (menu.log "Invalid command".toList,none)
      else (menu.log cmd,none)

-- The keys ncurses reports; -1 is none waiting.
def escape : Int := 27
def newline : Int := 10
def keyEnter : Int := 343
def keyBackspace : Int := 263

def isprint (ch : Int) : Bool := 32 ≤ ch && ch ≤ 126

-- One key in the loop of start, past the test for escape.
def keyPressed (menu : Menu) (ch : Int) : Option (Menu × Option Request) :=
  if ch = newline ∨ ch = keyEnter then
    (handleInput menu menu.mText).map fun (after,request) => ({after with mText := []},request)
  else if ch = keyBackspace then some ({menu with mText := menu.mText.dropLast},none)
  else if isprint ch then some ({menu with mText := menu.mText ++ [Char.ofNat ch.toNat]},none)
  else some (menu,none)

end Keyser.MainMenu
