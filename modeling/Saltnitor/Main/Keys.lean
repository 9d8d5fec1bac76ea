import Saltnitor.App.Console

/-!
# Keys

What the terminal reports, and how the inspectors read it. Shift with `x` may
come as `X` or as `x` with a modifier.
-/

namespace Saltnitor.Main

inductive KeyCode where
  | backspace
  | enter
  | left
  | right
  | up
  | down
  | pageUp
  | pageDown
  | tab
  | delete
  | esc
  | char (c : Char)
  | other
  deriving DecidableEq

structure KeyEvent where
  code : KeyCode
  shift : Bool := false
  control : Bool := false
  alt : Bool := false
  deriving DecidableEq

inductive ProcKey where
  | up
  | down
  /-- SIGTERM the selected PID. -/
  | terminate
  /-- Ask for confirmation, then SIGKILL. -/
  | kill
  | close
  | other
  deriving DecidableEq

/-- `closeChar` is the letter that opened the pane. -/
def classify (key : KeyEvent) (closeChar : Char) : ProcKey :=
  let ctrlOrAlt := key.control || key.alt
  match key.code with
  | .up => .up
  | .down => .down
  | .esc => .close
  | .delete => .terminate
  | .char c =>
    if c = 'X' && !ctrlOrAlt then .kill
    else if c = 'x' && key.shift && !ctrlOrAlt then .kill
    else if c = 'x' && !ctrlOrAlt then .terminate
    else if c = 'q' then .close
    else if c = closeChar && !ctrlOrAlt then .close
    else .other
  | _ => .other

/-- As the console's keys. -/
def KeyCode.toConsole : KeyCode → App.Key
  | .char c => .char c
  | .left => .left
  | .right => .right
  | .up => .up
  | .down => .down
  | .backspace => .backspace
  | .delete => .delete
  | .enter => .enter
  | .esc => .esc
  | _ => .other

theorem toConsole_eq_enter {code : KeyCode} (h : code.toConsole = .enter) : code = .enter := by
  cases code with
  | enter => rfl
  | _ => cases h

end Saltnitor.Main
