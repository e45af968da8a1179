import Rustack.Events.Pattern.Engine
import Rustack.Events.Pattern.Parser

/-!
# What targets receive

A target of a rule receives the event itself, a part of it, a text of its own or a template that
parts of the event are put into.
-/

namespace Rustack.Events

/-! ## Targets -/

structure InputTransformer where
  inputPathsMap : List (String × String)
  inputTemplate : String

/-- A target with the settings that only the bridge reads. -/
structure Target where
  id : String
  arn : String
  input : Option String
  inputPath : Option String
  inputTransformer : Option InputTransformer
  settings : List (String × Value)

structure EventsConfig where
  defaultRegion : String
  accountId : String

inductive DeliveryError where
  | invalidArn (text : String)
  | unsupported (text : String)
  | unavailable (text : String)
  | targetError (text : String)
  deriving DecidableEq

/-- The provider with the libraries it uses: JSON texts are read and printed, and the bridge
says which targets it can deliver to. -/
structure Provider (Net : Type) extends Host Net where
  config : EventsConfig
  fromStr : String → Except String Json
  print : Value → String
  validate : Target → Option DeliveryError

/-! ## Bodies -/

/-- The text behind `$.` or `$`, where it begins so. -/
def stripRoot (path : String) : String :=
  match path.toList with
  | '$' :: '.' :: rest => String.ofList rest
  | '$' :: rest => String.ofList rest
  | _ => path

def applyJsonPath (value : Value) (path : String) : Value :=
  let path := stripRoot path
  if path.isEmpty then value else (navigatePath value (path.splitOn ".")).getD .null

namespace Provider

variable {Net : Type} (p : Provider Net)

/-- The text that stands for a value in a template. -/
def valueStr : Value → String
  | .string s => s
  | other => p.print other

def applyInputTransform (target : Target) (event : Value) : String :=
  match target.input with
  | some input => input
  | none =>
    match target.inputPath with
    | some inputPath => p.print (applyJsonPath event inputPath)
    | none =>
      match target.inputTransformer with
      | some transformer =>
        transformer.inputPathsMap.foldl (fun result entry =>
          result.replace ("<" ++ entry.1 ++ ">") (p.valueStr (applyJsonPath event entry.2)))
          transformer.inputTemplate
      | none => p.print event

end Provider

end Rustack.Events
