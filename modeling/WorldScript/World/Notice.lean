import WorldScript.Value

/-!
What the world reports back. A request that someone waits for carries a token, and its outcome
is reported under that token.
-/
set_option autoImplicit false

namespace WorldScript

structure Token where
  index : Nat
deriving DecidableEq

def Token.text (t : Token) : String := "wait-" ++ Decimal.text t.index

inductive Notice
  | alarmFired (token : Token)
  | commandFinished (token : Token) (result : Option Value)
  /-- A command was replaced, or could not be carried out. -/
  | commandDisqualified (token : Token) (reason : String)
  | windowClosed (token : Token) (result : Option Value)
  | entityDestroyed (entity : Handle)
  | worldPaused (paused : Bool)
deriving DecidableEq

end WorldScript
