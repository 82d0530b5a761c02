import TreeProjection.Recognition.Recognizer

/-! # Script grammars

A grammar written as lists of statements, one list for each rule.  Every operation of a recognizer,
ordinary or direct, has its statement, and statements may branch and loop on the tokens ahead.

`leave` ends the nearest loop.  It passes through branches, speculations that have been decided, and
invocations within a rule.  A rule, the body of a trial and the body of an attempt hold it up: outside of a
loop, `leave` ends that body.

* `Script.recognizer` — a list of statements as a recognizer.
* `Script.grammar` — the grammar of several lists. -/

namespace TreeProjection.Script

/-- A statement of a script grammar. -/
inductive Statement where
  /-- Match a token. -/
  | expect (ty : TokenType) (follow : TokenSet)
  /-- Match a token and write it down. -/
  | expectNoted (ty : TokenType) (follow : TokenSet)
  /-- Invoke a rule. -/
  | call (r : RuleIndex) (follow : TokenSet)
  /-- Run a rule without saying what may come after it. -/
  | run (r : RuleIndex)
  /-- Invoke a body within the same rule. -/
  | inline (follow : TokenSet) (body : List Statement)
  /-- Guard a loop. -/
  | sync (expecting : TokenSet)
  /-- Fail because no alternative fits. -/
  | noViableAlt (depth : Nat)
  /-- Fail because the current token is none of the expected ones. -/
  | mismatch (expected : TokenSet)
  /-- Fail unless a condition holds. -/
  | require (holds : Bool) (text : String)
  /-- Try a body, write down how that went, and go on accordingly. -/
  | speculate (body yes no : List Statement)
  /-- Go on according to the type of the `k`-th token ahead. -/
  | ifAhead (k : Nat) (set : TokenSet) (yes no : List Statement)
  /-- Repeat a body as long as the type of the `k`-th token ahead is in a set. -/
  | whileAhead (k : Nat) (set : TokenSet) (body : List Statement)
  /-- Repeat a body. -/
  | loop (body : List Statement)
  /-- End the nearest loop. -/
  | leave
  /-- Run a body, and write down the exception that it fails with. -/
  | attempt (body : List Statement)
  /-- Consume the current token and write it down. -/
  | consume
  /-- Put the `k`-th token ahead into the tree as an error leaf. -/
  | errorLeaf (k : Nat)
  /-- Put a made-up token into the tree as an error leaf. -/
  | conjure (ty : TokenType) (text : String)
  /-- Report an error at the `k`-th token ahead. -/
  | report (k : Nat) (message : String)
  /-- Call the run off. -/
  | cancel
  /-- From now on no listener hears of errors. -/
  | dropListeners
  /-- Look at the parser's state and write down what is seen, under a name. -/
  | probe (name : String) (p : Probe)
  /-- Call a hook and write down what it answers, under a name. -/
  | hook (name : String) (c : HookCall)

/-- Whether a list of statements went through or was left for the end of a loop. -/
inductive Flow where
  /-- The statements went through. -/
  | through
  /-- The nearest loop is to end. -/
  | left
  deriving DecidableEq, Repr

open Recognizer in
/-- A list of statements as a recognizer.  The steps bound how deep rules and loops may go. -/
def recognizer (bodies : Array (List Statement)) : (steps : Nat) → List Statement → Recognizer Flow
  | 0, _ => .outOfSteps
  | _ + 1, [] => .pure .through
  | n + 1, s :: rest =>
    let orLeave : Flow → Recognizer Flow
      | .through => recognizer bodies n rest
      | .left => .pure .left
    let closed (body : List Statement) : Unit → Recognizer Unit := fun _ =>
      (recognizer bodies n body).bind fun _ => .pure ()
    let ruleOf (r : RuleIndex) : Recognizer Unit :=
      asRule r (closed (bodies[r.toNat]?.getD []))
    let noted (note : Note) : Recognizer Flow :=
      .direct (.note note) fun _ => recognizer bodies n rest
    match s with
    | .expect ty follow => .step (.expect ty follow) fun _ => recognizer bodies n rest
    | .expectNoted ty follow => .step (.expect ty follow) fun t => noted (.token t)
    | .call r follow => .invoke follow (fun _ => ruleOf r) fun _ => recognizer bodies n rest
    | .run r => (ruleOf r).bind fun _ => recognizer bodies n rest
    | .inline follow body => .invoke follow (fun _ => recognizer bodies n body) orLeave
    | .sync expecting => .step (.sync expecting) fun _ => recognizer bodies n rest
    | .noViableAlt depth => Recognizer.noViableAlt depth
    | .mismatch expected => Recognizer.mismatch expected
    | .require holds text => .step (.require holds text) fun _ => recognizer bodies n rest
    | .speculate body yes no => .speculate (closed body) fun ok =>
      .direct (.note (.speculated ok)) fun _ =>
        (recognizer bodies n (if ok then yes else no)).bind orLeave
    | .ifAhead k set yes no => .step (.ahead k) fun t =>
      (recognizer bodies n (if set.contains t.ty then yes else no)).bind orLeave
    | .whileAhead k set body =>
      (repeatWhile (fun _ => (typeAhead k).bind fun ty =>
        if set.contains ty then
          (recognizer bodies n body).bind fun flow => .pure (flow == .through)
        else .pure false) n).bind fun _ => recognizer bodies n rest
    | .loop body =>
      (repeatWhile (fun _ =>
        (recognizer bodies n body).bind fun flow => .pure (flow == .through)) n).bind
          fun _ => recognizer bodies n rest
    | .leave => .pure .left
    | .attempt body => .attempt (closed body) fun
      | .ok () => recognizer bodies n rest
      | .error e => noted (.caught e)
    | .consume => .step .consume fun t => noted (.token t)
    | .errorLeaf k => .step (.ahead k) fun t =>
      .direct (.errorLeaf t) fun _ => recognizer bodies n rest
    | .conjure ty text =>
      .direct (.errorLeaf (.conjured ty text)) fun _ => recognizer bodies n rest
    | .report k message => .step (.ahead k) fun t =>
      .direct (.report t message) fun _ => recognizer bodies n rest
    | .cancel => .direct .cancel fun _ => recognizer bodies n rest
    | .dropListeners => .direct .dropListeners fun _ => recognizer bodies n rest
    | .probe name p => .direct (.probe p) fun o => noted (.seen name o)
    | .hook name c => .direct (.hook c) fun o => noted (.seen name o)

/-- A list of statements as a recognizer of its own. -/
def main (bodies : Array (List Statement)) (steps : Nat) (body : List Statement) : Recognizer Unit :=
  (recognizer bodies steps body).bind fun _ => .pure ()

/-- The grammar in which each rule runs its own list of statements; a rule without one does nothing. -/
def grammar (language : Language) (bodies : Array (List Statement)) : Grammar where
  language := language
  entry steps r := .asRule r fun _ => main bodies steps (bodies[r.toNat]?.getD [])

end TreeProjection.Script
