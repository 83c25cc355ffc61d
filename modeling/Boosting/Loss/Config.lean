/- Losses by configuration.
   A configuration names a loss and its parameters. As text it is a JSON object whose member
   `type` holds the name, or an array that lists the name and then the parameters. Members that
   the loss does not know are ignored, and a member it knows may not be given twice. -/

import Boosting.Json.Reader
import Boosting.Loss.Basic

set_option autoImplicit false
set_option relaxedAutoImplicit false

namespace Boosting

inductive LossConfig where
  | squared
  | pseudoHuber (delta : Double)
  | logistic (classes : Nat)
deriving DecidableEq

inductive LossError where
  | delta (error : DeltaError)
  /-- Only two classes are supported; a request for others is fatal. -/
  | unsupportedClasses (classes : Nat)
deriving DecidableEq

def LossError.message : LossError → String
  | delta error => error.message
  | unsupportedClasses classes =>
    s!"unsupported: logistic loss supports 2 classes only, got {classes}"

namespace Loss

def binaryClasses : Nat := 2

def ofDelta (delta : Double) : Except LossError Loss :=
  match PseudoHuber.ofDelta delta with
  | .ok h => .ok (pseudoHuber h)
  | .error e => .error (.delta e)

def ofClasses (classes : Nat) : Except LossError Loss :=
  if classes = binaryClasses then .ok logistic else .error (.unsupportedClasses classes)

def ofConfig : LossConfig → Except LossError Loss
  | .squared => .ok squared
  | .pseudoHuber delta => ofDelta delta
  | .logistic classes => ofClasses classes

def toConfig : Loss → LossConfig
  | squared => .squared
  | pseudoHuber h => .pseudoHuber h.delta
  | logistic => .logistic binaryClasses

end Loss

namespace LossConfig

open Json (Value Number)

def delta? : Value → Option Double
  | .number n => some n.toDouble
  | _ => none

def classes? : Value → Option Nat
  | .number (.natural n) => some n
  | _ => none

/-- The value of a member that may be given once at most. -/
def member? (name : String) (members : List (String × Value)) : Option (Option Value) :=
  match members.filter (fun m => m.1 == name) with
  | [] => some none
  | [m] => some (some m.2)
  | _ => none

def ofMembers? (name : String) (members : List (String × Value)) : Option LossConfig :=
  if name = "squared" then
    some squared
  else if name = "pseudo_huber" then
    match member? "delta" members with
    | some (some v) => (delta? v).map pseudoHuber
    | _ => none
  else if name = "logistic" then
    match member? "n_classes" members with
    | some (some v) => (classes? v).map logistic
    | some none => some (logistic Loss.binaryClasses)
    | none => none
  else
    none

def ofItems? (name : String) (items : List Value) : Option LossConfig :=
  if name = "squared" then
    if items.isEmpty then some squared else none
  else if name = "pseudo_huber" then
    match items with
    | [v] => (delta? v).map pseudoHuber
    | _ => none
  else if name = "logistic" then
    match items with
    | [] => some (logistic Loss.binaryClasses)
    | [v] => (classes? v).map logistic
    | _ => none
  else
    none

def ofValue? : Value → Option LossConfig
  | .object members =>
    match member? "type" members with
    | some (some (.string name)) => ofMembers? name members
    | _ => none
  | .array (.string name :: items) => ofItems? name items
  | _ => none

def read? (text : String) : Option LossConfig :=
  match Json.read? text with
  | some value => ofValue? value
  | none => none

end LossConfig

end Boosting
