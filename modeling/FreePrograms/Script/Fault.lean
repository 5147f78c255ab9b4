/-
# What can go wrong in a script

A script fails for a stated cause, and each cause has one wording (`Fault.message`).
-/
import FreePrograms.ResultType

namespace FreePrograms.Script

/-- The causes for which a script, or a function that a script hands in, fails. -/
inductive Fault where
  /-- A number that is no signed 64-bit integer. -/
  | numberOutOfRange
  | unbound (name : String)
  | expected (type : ResultType) (got : Datum.Kind)
  /-- Something that is no list, by its kind where the message names it. -/
  | expectedList (got : Option Datum.Kind)
  | raised (text : String)
  | emptyExpression
  | unknownExpression (key : String)
  | unknownStep (word : String)
  | unknownProgram (word : String)
  | unknownEffect (word : String)
  | unknownDecoding (word : String)
  | unknownDeferred (word : String)
  | noProgram (name : String)
  | decodingRefused (type : ResultType)
  | renderingRefused (effect : String)
  | pureRefused (value : String)
  | combineRefused
  | forceRefused (effect : String)
  | handlerFailed (reason : String)

/-- The wording of a fault. -/
def Fault.message : Fault → String
  | numberOutOfRange => "number out of range"
  | unbound name => "unbound " ++ name
  | expected type got => "expected " ++ type.name ++ ", got " ++ got.name
  | expectedList none => "expected list"
  | expectedList (some got) => "expected list, got " ++ got.name
  | raised text => text
  | emptyExpression => "empty expression"
  | unknownExpression key => "unknown expression " ++ key
  | unknownStep word => "unknown step " ++ word
  | unknownProgram word => "unknown program " ++ word
  | unknownEffect word => "unknown effect " ++ word
  | unknownDecoding word => "unknown extract " ++ word
  | unknownDeferred word => "unknown deferred " ++ word
  | noProgram name => "no program " ++ name
  | decodingRefused type => "extract refused " ++ type.name
  | renderingRefused effect => "translation refused " ++ effect
  | pureRefused value => "pure transform refused " ++ value
  | combineRefused => "combine refused"
  | forceRefused effect => "force refused " ++ effect
  | handlerFailed reason => "handler failed: " ++ reason

end FreePrograms.Script
