/-!
# Arguments

Arguments are names of files, and options before or after them. An option with a value takes it
from the same argument (`--start=V`, `-sV`, `-s=V`) or from the next one, which then must not begin
with a dash, unless it is a dash alone. Options of one letter can share an argument. After `--`
every argument is a file.
-/

set_option autoImplicit false

namespace GromListing.CommandLine

/-- Options without a value. -/
inductive Switch
  | bytes
  | verbose
  | help
  | version
  deriving DecidableEq

inductive Setting
  | origin
  | start
  | stop
  | count
  deriving DecidableEq

/-- What the arguments say, item by item. -/
inductive Item
  | switch (switch : Switch)
  | setting (setting : Setting) (value : String)
  | file (name : String)
  /-- An argument that says nothing. -/
  | invalid
  deriving DecidableEq

/-- One argument by itself: the items in it, and the setting, if any, that awaits its value in the
next argument. -/
structure Argument where
  items : List Item
  awaits : Option Setting
  deriving DecidableEq

namespace Argument

def named (word : List Char) : Option (Switch ⊕ Setting) :=
  [("bytes", .inl .bytes), ("verbose", .inl .verbose), ("help", .inl .help),
    ("version", .inl .version), ("origin", .inr .origin), ("start", .inr .start),
    ("end", .inr .stop), ("count", .inr .count)].lookup (String.ofList word)

def lettered (letter : Char) : Option (Switch ⊕ Setting) :=
  [('b', .inl .bytes), ('v', .inl .verbose), ('h', .inl .help), ('V', .inl .version),
    ('s', .inr .start), ('e', .inr .stop), ('n', .inr .count)].lookup letter

/-- An option written as a word, with its value after an equals sign. -/
def ofWord (text : List Char) : Argument :=
  let word := text.takeWhile (· != '=')
  match named word, text.drop word.length with
  | some (.inl switch), [] => ⟨[.switch switch], none⟩
  | some (.inr setting), [] => ⟨[], some setting⟩
  | some (.inr setting), _ :: value => ⟨[.setting setting (String.ofList value)], none⟩
  | _, _ => ⟨[.invalid], none⟩

/-- Options written as letters. What stands after the letter of a setting is its value. -/
def ofLetters : List Char → Argument
  | [] => ⟨[], none⟩
  | letter :: rest =>
    match lettered letter, rest with
    | some (.inl switch), _ =>
      let others := ofLetters rest
      ⟨.switch switch :: others.items, others.awaits⟩
    | some (.inr setting), [] => ⟨[], some setting⟩
    | some (.inr setting), '=' :: value | some (.inr setting), value =>
      ⟨[.setting setting (String.ofList value)], none⟩
    | none, _ => ⟨[.invalid], none⟩

/-- Reads an argument that is neither a value nor `--`. -/
def ofString (argument : String) : Argument :=
  match argument.toList with
  | '-' :: '-' :: word => ofWord word
  | '-' :: letter :: letters => ofLetters (letter :: letters)
  | _ => ⟨[.file argument], none⟩

def canBeValue (argument : String) : Bool :=
  match argument.toList with
  | '-' :: _ :: _ => false
  | _ => true

end Argument

/-- What a list of arguments says. Nothing is read after a value that is missing. -/
def items : List String → List Item
  | [] => []
  | argument :: rest =>
    if argument = "--" then rest.map .file
    else
      let this := Argument.ofString argument
      match this.awaits, rest with
      | none, rest => this.items ++ items rest
      | some setting, value :: rest =>
        if Argument.canBeValue value then this.items ++ .setting setting value :: items rest
        else this.items ++ [.invalid]
      | some _, [] => this.items ++ [.invalid]

end GromListing.CommandLine
