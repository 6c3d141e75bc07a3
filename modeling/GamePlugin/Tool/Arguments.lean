import GamePlugin.Edition
import GamePlugin.FormId
import GamePlugin.Tool.Verb

/-!
# Arguments of the command line

A call names a command and a file; some commands take more. The edition may be forced anywhere in
the call, a world may be chosen for `cell`. An option's value follows it, after `=` or as the next
argument. Coordinates may start with a hyphen, other values may not.

Arguments are judged one after the other, so a request for help is granted if all before it is in
order, whatever comes after it.
-/

namespace GamePlugin.Tool

/-- What is to be done with a file. -/
inductive Command where
  /-- Shows what the root record says and the top groups. -/
  | info
  /-- Counts records by tag. -/
  | stats
  /-- Finds a record by editor id. -/
  | find (editorId : String)
  /-- Finds an exterior cell. -/
  | cell (world : FormId) (x y : Int32)
deriving DecidableEq

/-- A call of the tool. -/
structure Call where
  edition : Option Edition
  file : String
  command : Command
deriving DecidableEq

/-- What arguments ask for. -/
inductive Request where
  /-- A call is to be carried out. -/
  | run (call : Call)
  /-- A command is to be explained. -/
  | help (verb : Verb)
deriving DecidableEq

/-! ## Values -/

/-- A text in lower case without some characters. -/
def squeeze (drop : List Char) (s : String) : List Char :=
  (s.toList.map Char.toLower).filter fun c => !drop.contains c

/-- The edition of a name, in which case, blanks and some marks do not count. -/
def edition? (s : String) : Option Edition :=
  let wanted := squeeze [' ', '_', '-', ':'] s
  Edition.all.find? fun e => squeeze [' ', ':'] e.title = wanted || squeeze [] e.name = wanted

/-- The value of a digit in a base of up to 16. -/
def digit? (base : Nat) (c : Char) : Option Nat :=
  let value? :=
    if '0' ≤ c ∧ c ≤ '9' then some (c.toNat - '0'.toNat)
    else if 'a' ≤ c ∧ c ≤ 'f' then some (c.toNat - 'a'.toNat + 10)
    else if 'A' ≤ c ∧ c ≤ 'F' then some (c.toNat - 'A'.toNat + 10)
    else none
  value?.filter (· < base)

/-- The number of one or more digits. -/
def digits? (base : Nat) (cs : List Char) : Option Nat :=
  if cs.isEmpty then none
  else cs.foldlM (fun n c => (digit? base c).map (n * base + ·)) 0

/-- A text without any number of `0x` in front. -/
def dropHexMark : List Char → List Char
  | '0' :: 'x' :: cs => dropHexMark cs
  | cs => cs

/-- A form id in hexadecimal digits, which a plus sign may precede. -/
def formId? (s : String) : Option FormId :=
  let value? :=
    match dropHexMark s.toList with
    | '+' :: cs => digits? 16 cs
    | cs => digits? 16 cs
  (value?.filter (· < UInt32.size)).map fun n => ⟨UInt32.ofNat n⟩

/-- A coordinate in decimal digits, which a sign may precede. -/
def coordinate? (s : String) : Option Int32 :=
  let value? : Option Int :=
    match s.toList with
    | '-' :: cs => (digits? 10 cs).map fun n => -(n : Int)
    | '+' :: cs => (digits? 10 cs).map fun n => (n : Int)
    | cs => (digits? 10 cs).map fun n => (n : Int)
  (value?.filter fun n => -0x80000000 ≤ n ∧ n < 0x80000000).map Int32.ofInt

/-! ## Requests -/

/-- What arguments have given so far. -/
structure Given where
  /-- The edition forced before the command. -/
  outerEdition : Option Edition := none
  verb : Option Verb := none
  /-- The edition forced after the command, which goes first. -/
  innerEdition : Option Edition := none
  world : Option FormId := none
  /-- The values of the command. -/
  values : List String := []

/-- An option that takes a value. -/
inductive Switch where
  | edition
  | world
deriving DecidableEq

/-- What an argument is. -/
inductive Role where
  /-- An option, with its value if that is in the same argument. -/
  | switch (switch : Switch) (value : Option String)
  | help
  /-- The command or one of its values. -/
  | value
  | unknown
deriving DecidableEq

namespace Given

/-- Whether a world may be chosen. -/
def takesWorld (g : Given) : Bool := g.verb.any (·.takesWorld)

/-- Whether the next value may start with a hyphen: the coordinates, which follow the file. -/
def takesHyphen (g : Given) : Bool :=
  g.verb = some .cell && (g.values.length = 1 || g.values.length = 2)

/-- The value written in the same argument as its option, with or without `=`. -/
def attached : List Char → Option String
  | [] => none
  | '=' :: rest => some (String.ofList rest)
  | rest => some (String.ofList rest)

/-- What an argument with one hyphen is, from the letters after it. The first one decides, unless a
value may start with a hyphen: then all must be letters of options. -/
def shortRole (g : Given) (letters : List Char) : Role :=
  let known := if g.takesWorld then ['e', 'h', 'w'] else ['e', 'h']
  if g.takesHyphen && !letters.all known.contains then .value
  else
    match letters with
    | 'h' :: _ => .help
    | 'e' :: rest => .switch .edition (attached rest)
    | 'w' :: rest => if g.takesWorld then .switch .world (attached rest) else .unknown
    | _ => .unknown

/-- What an argument with two hyphens is, from the text after them. -/
def longRole (g : Given) (text : List Char) : Role :=
  let name := String.ofList (text.takeWhile (· ≠ '='))
  let value? := (text.dropWhile (· ≠ '=')).tail?.map String.ofList
  if name = "edition" then .switch .edition value?
  else if name = "world" && g.takesWorld then .switch .world value?
  else if name = "help" then if value? = none then .help else .unknown
  else if g.takesHyphen then .value
  else .unknown

/-- What an argument is. A lone hyphen is a value. -/
def role (g : Given) (arg : String) : Role :=
  match arg.toList with
  | '-' :: '-' :: text => g.longRole text
  | '-' :: c :: letters => g.shortRole (c :: letters)
  | _ => .value

/-- Adds the value of an option, which may be given only once; none if it is no such value. -/
def give? (g : Given) (switch : Switch) (value : String) : Option Given := do
  match switch, g.verb with
  | .edition, none =>
    let edition ← edition? value
    if g.outerEdition = none then some { g with outerEdition := some edition } else none
  | .edition, some _ =>
    let edition ← edition? value
    if g.innerEdition = none then some { g with innerEdition := some edition } else none
  | .world, _ =>
    let world ← formId? value
    if g.world = none then some { g with world := some world } else none

/-- Whether a text can be the next value of a command. -/
def accepts (verb : Verb) (before : Nat) (value : String) : Bool :=
  match verb, before with
  | _, 0 => value ≠ ""
  | .find, 1 => true
  | .cell, 1 => (coordinate? value).isSome
  | .cell, 2 => (coordinate? value).isSome
  | _, _ => false

/-- Adds the command or one of its values; none if it is no such thing. -/
def add? (g : Given) (value : String) : Option Given :=
  match g.verb with
  | none => (Verb.ofName? value).map fun verb => { g with verb := some verb }
  | some verb =>
    if accepts verb g.values.length value then some { g with values := g.values ++ [value] }
    else none

/-- The world that cells are looked for in unless another is chosen. -/
def defaultWorld : FormId := ⟨0x3C⟩

/-- The call that has been given, if it is complete. -/
def call? (g : Given) : Option Call := do
  let edition := g.innerEdition.or g.outerEdition
  match ← g.verb, g.values with
  | .info, [file] => return ⟨edition, file, .info⟩
  | .stats, [file] => return ⟨edition, file, .stats⟩
  | .find, [file, editorId] => return ⟨edition, file, .find editorId⟩
  | .cell, [file, x, y] =>
    return ⟨edition, file, .cell (g.world.getD defaultWorld) (← coordinate? x) (← coordinate? y)⟩
  | _, _ => none

/-- What is asked for by what has been given and the arguments that follow. -/
def request? (g : Given) : List String → Option Request
  | [] => g.call?.map .run
  | "--" :: rest =>
    if g.verb = none then none
    else ((rest.foldlM add? g).bind call?).map .run
  | arg :: rest =>
    match g.role arg, rest with
    | .help, _ => g.verb.map .help
    | .unknown, _ => none
    | .value, rest =>
      match g.add? arg with
      | some g => request? g rest
      | none => none
    | .switch switch (some value), rest =>
      match g.give? switch value with
      | some g => request? g rest
      | none => none
    | .switch switch none, value :: rest =>
      match value.toList with
      | '-' :: _ :: _ => none
      | _ =>
        match g.give? switch value with
        | some g => request? g rest
        | none => none
    | .switch _ none, [] => none

end Given

/-- What arguments ask for; none if that cannot be made out. -/
def request? (args : List String) : Option Request := Given.request? {} args

end GamePlugin.Tool
