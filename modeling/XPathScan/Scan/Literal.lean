import XPathScan.Scan.Basic

/-!
# String literals

A string literal goes from a quote to the next quote of the same sort. In versions with escaped
quotes a doubled quote does not end it. Everything else may stand in it, line breaks included.
-/

namespace XPathScan.Scan

variable {n : Nat}

/-- **Scan a string literal behind its opening quote**, up to and including the closing one. -/
def literalRest (quote : UInt8) (escapes : Bool) (w : Window n) :
    EStateM.Result ScanError (Window n) Unit :=
  match hfind : w.eatUntil quote with
  | .error e w₁ => .error (.ofSearch e) w₁
  | .ok false w₁ => .error (.malformed .unterminatedLiteral) w₁
  | .ok true w₁ =>
    match hclose : w₁.advance 1 with
    | .error o => .error (.overflow o) w₁
    | .ok w₂ =>
      if hagain : escapes = true ∧ w₂.peek = some quote then
        match hpair : w₂.advance 1 with
        | .error o => .error (.overflow o) w₂
        | .ok w₃ =>
          have : w₃.room < w.room :=
            calc w₃.room
              _ < w₂.room :=
                Window.room_advance_lt Nat.one_pos (Window.isAtEnd_of_peek hagain.2) hpair
              _ ≤ w₁.room := Window.room_advance_le hclose
              _ ≤ w.room := Window.room_eatUntil_le hfind
          literalRest quote escapes w₃
      else .ok () w₂
termination_by w.room

/-- **Scan a string literal.** -/
def literal (d : Dialect) (quote : UInt8) : Scan n Kind := do
  advance
  literalRest quote (d.supports .escapedQuotes)
  pure .stringLiteral

end XPathScan.Scan
