import ScriptDebug.Script.Machine
import ScriptDebug.Text.Blank

/-!
# Expressions

An expression is a literal, or a name and the fields taken from its value, with points between
them. A name means what it means to the running code: the latest local variable of the innermost
frame, else the first upvalue, else the global, else `nil`.
-/

namespace ScriptDebug.Script

/-- The first variable of a list with the given name. -/
def valueOf (name : String) (vs : List Variable) : Option Value :=
  (vs.find? (·.1 == name)).map (·.2)

/-- What a name means in a frame. -/
def Frame.resolve? (f : Frame) (name : String) : Option Value :=
  valueOf name (f.locals.reverse ++ f.function.upvalues)

/-- **Resolve** a name on an execution thread. -/
def Machine.resolve (m : Machine) (h : Handle) (name : String) : Value :=
  (((m.frame? h 0).bind (·.resolve? name)).or (m.global? name)).getD .nil

/-- An expression that is none. -/
def expressionFault (expression : List Char) : ScriptFailure :=
  ⟨3, s!"unexpected symbol near '{String.ofList expression}'"⟩

/-- A field is taken from a value that is no table. -/
def indexFault (v : Value) : ScriptFailure :=
  ⟨2, s!"attempt to index a {v.tag.text} value"⟩

/-- Take one field after the other. -/
def Value.follow (expression : List Char) (v : Value) :
    List (List Char) → Except ScriptFailure Value
  | [] => .ok v
  | part :: rest =>
    if !isName part then .error (expressionFault expression)
    else
      match v with
      | .table _ entries =>
        ((Value.field? entries (String.ofList part)).getD .nil).follow expression rest
      | v => .error (indexFault v)

/-- The expression meant by a text: blanks around it do not count, nor does a `return` before it. -/
def expressionOf (text : String) : List Char :=
  let cs := Text.trimChars text.toList
  if "return ".toList.isPrefixOf cs then Text.trimChars (cs.drop 7) else cs

/-- **Evaluate** an expression on an execution thread. -/
def Machine.evaluate (m : Machine) (h : Handle) (text : String) : Except ScriptFailure Value :=
  let expression := expressionOf text
  match literal? expression with
  | some v => .ok v
  | none =>
    match Text.splitAll '.' expression with
    | [] => .error (expressionFault expression)
    | root :: parts =>
      if isName root then (m.resolve h (String.ofList root)).follow expression parts
      else .error (expressionFault expression)

end ScriptDebug.Script
