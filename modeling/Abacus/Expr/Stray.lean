import Abacus.Text.Numeral
import Abacus.Text.Quoted

/-! Strays: things that are no expressions, but that a tree made by hand may hold in place
of one. -/

namespace Abacus

open Text

mutual

inductive Stray where
  | number (value : Int)
  | decimal (spelling : String)
  | text (content : String)
  | truth (value : Bool)
  | nothing
  | list (items : StrayList)
  | record (fields : StrayFields)
deriving DecidableEq, Repr

inductive StrayList where
  | nil
  | cons (item : Stray) (rest : StrayList)
deriving DecidableEq, Repr

inductive StrayFields where
  | nil
  | cons (name : String) (item : Stray) (rest : StrayFields)
deriving DecidableEq, Repr

end

def StrayList.ofList (items : List Stray) : StrayList :=
  items.foldr StrayList.cons .nil

def StrayFields.ofList (fields : List (String × Stray)) : StrayFields :=
  fields.foldr (fun field rest => .cons field.1 field.2 rest) .nil

mutual

def Stray.describe : Stray → String
  | .number value => toString value
  | .decimal spelling => spelling
  | .text content => quoted content
  | .truth true => "True"
  | .truth false => "False"
  | .nothing => "None"
  | .list items => "[" ++ ", ".intercalate items.describeAll ++ "]"
  | .record fields => "\x7b" ++ ", ".intercalate fields.describeAll ++ "\x7d"

def StrayList.describeAll : StrayList → List String
  | .nil => []
  | .cons item rest => item.describe :: rest.describeAll

def StrayFields.describeAll : StrayFields → List String
  | .nil => []
  | .cons name item rest => (quoted name ++ ": " ++ item.describe) :: rest.describeAll

end

/-- As described, but a text by itself stands without quotation marks. -/
def Stray.render : Stray → String
  | .text content => content
  | item => item.describe

mutual

def Stray.isWritable : Stray → Bool
  | .number value => Text.isWritable value
  | .list items => items.isWritable
  | .record fields => fields.isWritable
  | _ => true

def StrayList.isWritable : StrayList → Bool
  | .nil => true
  | .cons item rest => item.isWritable && rest.isWritable

def StrayFields.isWritable : StrayFields → Bool
  | .nil => true
  | .cons _ item rest => item.isWritable && rest.isWritable

end

end Abacus
