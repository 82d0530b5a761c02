import Mathlib.Data.String.Basic
import TreeProjection.Language.Registry

/-! # The registry under concurrent calls

A registration reads first, and if the name is free it writes; each of its two phases is one step, and between them any
other call may step.  Whatever the order of the steps, **each call is answered as if it had been made in one piece when
it stepped for the last time**, because the second phase looks again.

* `Registry.Call`, `Registry.Caller` — the calls, and how far a call has come.
* `Registry.World` — a registry with its callers; `World.step` is one phase of one call.
* `Registry.Call.perform` — a call that is made in one piece; `World.performed_run` — every answer is that of one.
* `World.Consistent` — what holds at every moment; `World.Consistent.run` — under any schedule.
* `World.agrees_run` — what all calls agree on. -/

namespace TreeProjection

namespace Registry

variable {g g' : Registry} {name : String} {build : Unit → Language} {entry : Entry}

/-! ## Entries -/

/-- The names that are taken, in the order in which they were. -/
def names (g : Registry) : List String := g.entries.toList.map (·.1)

/-- A name is found if it is taken. -/
theorem find?_eq_none_iff : g.find? name = none ↔ name ∉ g.names := by
  unfold find?
  cases hplace : g.entries.findIdx? (·.1 == name) with
  | none =>
      rw [Array.findIdx?_eq_none_iff] at hplace
      have hfree : name ∉ g.names := by
        intro hmem
        obtain ⟨e, he, rfl⟩ := List.mem_map.mp hmem
        simpa using hplace e (by simpa using he)
      exact ⟨fun _ => hfree, fun _ => rfl⟩
  | some place =>
      obtain ⟨hlt, hname, -⟩ := Array.findIdx?_eq_some_iff_getElem.mp hplace
      have htaken : name ∈ g.names := by
        refine List.mem_map.mpr ⟨g.entries[place], by simp, ?_⟩
        simpa using hname
      simp [hlt, htaken]

/-- One entry more changes nothing about the names that are taken. -/
theorem find?_push (hfound : g.find? name = some entry) (added : String × Language) :
    ({ entries := g.entries.push added } : Registry).find? name = some entry := by
  unfold find? at hfound ⊢
  cases hplace : g.entries.findIdx? (·.1 == name) with
  | none =>
      rw [hplace] at hfound
      cases hfound
  | some place =>
      obtain ⟨hlt, -⟩ := Array.findIdx?_eq_some_iff_getElem.mp hplace
      rw [hplace] at hfound
      rw [Array.findIdx?_push, hplace]
      simpa [Array.getElem?_push_lt hlt, hlt] using hfound

/-- A free name is taken by the entry that comes next. -/
theorem find?_push_of_free (hfree : g.find? name = none) (language : Language) :
    ({ entries := g.entries.push (name, language) } : Registry).find? name = some ⟨g.entries.size, language⟩ := by
  have hplace : g.entries.findIdx? (·.1 == name) = none := by
    rw [Array.findIdx?_eq_none_iff]
    intro e he
    have hname : name ∉ g.names := find?_eq_none_iff.mp hfree
    simp only [beq_eq_false_iff_ne]
    intro heq
    exact hname (List.mem_map.mpr ⟨e, by simpa using he, heq⟩)
  unfold find?
  rw [Array.findIdx?_push, hplace]
  simp

/-- The names after a claim: one more, if the language was built. -/
theorem names_claim (g : Registry) (name : String) (build : Unit → Language) :
    (g.claim name build).2.2.names = g.names ++ (if (g.claim name build).1 then [name] else []) := by
  unfold claim
  cases g.find? name with
  | some e => simp
  | none => simp [names]

/-- The language is built only if the name is free. -/
theorem claim_ran (hran : (g.claim name build).1 = true) : name ∉ g.names := by
  unfold claim at hran
  cases hfind : g.find? name with
  | some e =>
      rw [hfind] at hran
      cases hran
  | none => exact find?_eq_none_iff.mp hfind

/-- **The entry that a claim answers is the one under the name**, from then on. -/
theorem find?_claim (g : Registry) (name : String) (build : Unit → Language) :
    (g.claim name build).2.2.find? name = some (g.claim name build).2.1 := by
  unfold claim
  cases hfind : g.find? name with
  | some e => exact hfind
  | none => exact find?_push_of_free hfind (build ())

/-- **The second phase of a registration is a registration in one piece**, since it looks again. -/
theorem registerWith_eq_claim (g : Registry) (name : String) (build : Unit → Language) :
    g.registerWith name build = g.claim name build := by
  unfold registerWith claim
  cases g.find? name <;> rfl

/-- **Every entry stays** what it is. -/
def Extends (g g' : Registry) : Prop := ∀ name entry, g.find? name = some entry → g'.find? name = some entry

/-- Names that are taken stay taken. -/
theorem Extends.names (hextends : g.Extends g') : g.names ⊆ g'.names := by
  intro name hname
  by_contra hfree
  rw [← find?_eq_none_iff] at hfree
  cases hfind : g.find? name with
  | none => exact find?_eq_none_iff.mp hfind hname
  | some e =>
      rw [hextends name e hfind] at hfree
      cases hfree

/-- A claim leaves every entry what it is. -/
theorem extends_claim (g : Registry) (name : String) (build : Unit → Language) :
    g.Extends (g.claim name build).2.2 := by
  intro other e hother
  unfold claim
  cases g.find? name with
  | some _ => exact hother
  | none => exact find?_push hother _

/-! ## Sorted names -/

/-- The registered names are those that are taken. -/
theorem mem_registered : name ∈ g.registered ↔ name ∈ g.names := List.mem_mergeSort

/-- **Names that are taken once are listed once**, in ascending order. -/
theorem registered_sorted (hdistinct : g.names.Nodup) : g.registered.Pairwise (· < ·) := by
  have hsorted : g.registered.Pairwise fun a b => decide (a ≤ b) = true := by
    apply List.pairwise_mergeSort
    · intro a b c hab hbc
      simp only [decide_eq_true_eq] at hab hbc ⊢
      exact hab.trans hbc
    · intro a b
      simpa using le_total a b
  have hnodup : g.registered.Nodup := (List.mergeSort_perm _ _).nodup_iff.mpr hdistinct
  refine (hsorted.and hnodup).imp ?_
  rintro a b ⟨hle, hne⟩
  exact lt_of_le_of_ne (by simpa using hle) hne

/-! ## Calls -/

/-- A call of the registry. -/
inductive Call where
  /-- Register the language that `build` gives under a name. -/
  | registerWith (name : String) (build : Unit → Language)
  /-- Look a language up. -/
  | lookup (name : String)
  /-- List the registered names. -/
  | registered

/-- The call that registers a language under its own name. -/
def Call.register (language : Language) : Call := .registerWith language.name fun _ => language

/-- The answer to a call. -/
inductive Answer where
  /-- The entry of a language. -/
  | entry (entry : Entry)
  /-- There is no language of the name. -/
  | failed (error : Error)
  /-- The registered names. -/
  | names (names : List String)

/-- The answer to a look-up. -/
def Answer.ofLookup : Except Error Entry → Answer
  | .ok entry => .entry entry
  | .error error => .failed error

/-- The name that a call is about. -/
def Call.name? : Call → Option String
  | .registerWith name _ => some name
  | .lookup name => some name
  | .registered => none

/-- **A call that is made in one piece**: its answer, and the registry after it. -/
def Call.perform (g : Registry) : Call → Answer × Registry
  | .registerWith name build => (.entry (g.registerWith name build).2.1, (g.registerWith name build).2.2)
  | .lookup name => (.ofLookup (g.lookup name), g)
  | .registered => (.names g.registered, g)

/-- To register a language under its own name is a registration too. -/
theorem Call.perform_register (g : Registry) (language : Language) :
    (Call.register language).perform g = (.entry (g.register language).1, (g.register language).2) := rfl

/-- The names under which a call builds a language, one at most. -/
def Call.builds (g : Registry) : Call → List String
  | .registerWith name build => if (g.registerWith name build).1 then [name] else []
  | _ => []

/-- **An answer accords with a registry**: what it says of entries and names is so. -/
def Call.Accords (g : Registry) : Call → Answer → Prop
  | .registerWith name _, answer => ∃ e, answer = .entry e ∧ g.find? name = some e
  | .lookup name, answer =>
      answer = .failed (.unknownLanguage name) ∨ ∃ e, answer = .entry e ∧ g.find? name = some e
  | .registered, answer => ∃ names, answer = .names names ∧ names.Pairwise (· < ·) ∧ names ⊆ g.names

namespace Call

variable {answer : Answer}

/-- A call leaves every entry what it is. -/
theorem extends_perform (g : Registry) (call : Call) : g.Extends (call.perform g).2 := by
  cases call with
  | registerWith name build =>
      show g.Extends (g.registerWith name build).2.2
      rw [registerWith_eq_claim]
      exact extends_claim g name build
  | lookup name => exact fun _ _ hfound => hfound
  | registered => exact fun _ _ hfound => hfound

/-- The names after a call: one more, if it builds a language. -/
theorem names_perform (g : Registry) (call : Call) : (call.perform g).2.names = g.names ++ call.builds g := by
  cases call with
  | registerWith name build =>
      show (g.registerWith name build).2.2.names = _ ++ if (g.registerWith name build).1 then [name] else []
      rw [registerWith_eq_claim]
      exact names_claim g name build
  | lookup name => simp [perform, builds]
  | registered => simp [perform, builds]

/-- **A language is built only under a free name**, and so the names stay distinct. -/
theorem nodup_perform (hdistinct : g.names.Nodup) (call : Call) : (call.perform g).2.names.Nodup := by
  rw [names_perform]
  cases call with
  | registerWith name build =>
      by_cases hran : (g.registerWith name build).1 = true
      · have hfree : name ∉ g.names := by
          rw [registerWith_eq_claim] at hran
          exact claim_ran hran
        rw [builds, if_pos hran]
        apply List.nodup_append.mpr
        refine ⟨hdistinct, by simp, ?_⟩
        rintro other hother _ hname rfl
        exact hfree (List.mem_singleton.mp hname ▸ hother)
      · simpa [builds, hran] using hdistinct
  | lookup name => simpa [builds] using hdistinct
  | registered => simpa [builds] using hdistinct

/-- **The answer to a call accords with the registry after it.** -/
theorem accords_perform (hdistinct : g.names.Nodup) (call : Call) :
    call.Accords (call.perform g).2 (call.perform g).1 := by
  cases call with
  | registerWith name build =>
      refine ⟨_, rfl, ?_⟩
      show (g.registerWith name build).2.2.find? name = some (g.registerWith name build).2.1
      rw [registerWith_eq_claim]
      exact find?_claim g name build
  | lookup name =>
      cases hfind : g.find? name with
      | none => simp [Accords, perform, Registry.lookup, Answer.ofLookup, hfind]
      | some e => simp [Accords, perform, Registry.lookup, Answer.ofLookup, hfind]
  | registered => exact ⟨_, rfl, registered_sorted hdistinct, fun name hname => mem_registered.mp hname⟩

/-- An answer goes on to accord, since every entry stays. -/
theorem Accords.mono {call : Call} (h : call.Accords g answer) (hextends : g.Extends g') :
    call.Accords g' answer := by
  cases call with
  | registerWith name build =>
      obtain ⟨e, hanswer, hfound⟩ := h
      exact ⟨e, hanswer, hextends name e hfound⟩
  | lookup name =>
      rcases h with hfailed | ⟨e, hanswer, hfound⟩
      · exact .inl hfailed
      · exact .inr ⟨e, hanswer, hextends name e hfound⟩
  | registered =>
      obtain ⟨names, hanswer, hsorted, hsubset⟩ := h
      exact ⟨names, hanswer, hsorted, fun name hname => hextends.names (hsubset hname)⟩

end Call

/-! ## Callers -/

/-- **How far a call has come.** -/
inductive Caller where
  /-- The call has yet to read. -/
  | waiting (call : Call)
  /-- A registration has read that its name is free, and has yet to write. -/
  | missed (name : String) (build : Unit → Language)
  /-- The call is finished. -/
  | done (call : Call) (answer : Answer)

namespace Caller

/-- The call. -/
def call : Caller → Call
  | .waiting call => call
  | .missed name build => .registerWith name build
  | .done call _ => call

/-- The reading phase: a registration of a free name is not finished by it, all else is. -/
def read (g : Registry) : Call → Caller
  | .registerWith name build =>
      match g.find? name with
      | some entry => .done (.registerWith name build) (.entry entry)
      | none => .missed name build
  | .lookup name => .done (.lookup name) (.ofLookup (g.lookup name))
  | .registered => .done .registered (.names g.registered)

/-- **One phase of a call**: how far the call has come then, the registry, and the name under which a language has been
built, if one has. -/
def act (g : Registry) : Caller → Caller × Registry × List String
  | .waiting call => (read g call, g, [])
  | .missed name build =>
      let (ran, entry, g') := g.claim name build
      (.done (.registerWith name build) (.entry entry), g', if ran then [name] else [])
  | .done call answer => (.done call answer, g, [])

/-- **What one phase of a call does.**  If the call is finished already, nothing.  If it is a registration that reads
that its name is free, it comes to its second phase, and nothing else.  Otherwise it is made in one piece. -/
theorem act_cases (g : Registry) (c : Caller) :
    (∃ call answer, c = .done call answer ∧ c.act g = (c, g, [])) ∨
      (∃ name build, c = .waiting (.registerWith name build) ∧ c.act g = (.missed name build, g, [])) ∨
      c.act g = (.done c.call (c.call.perform g).1, (c.call.perform g).2, c.call.builds g) := by
  cases c with
  | waiting call =>
      cases call with
      | registerWith name build =>
          cases hfind : g.find? name with
          | none => exact .inr (.inl ⟨name, build, rfl, by simp [act, read, hfind]⟩)
          | some e => exact .inr (.inr (by simp [act, read, call, Call.perform, Call.builds, registerWith, hfind]))
      | lookup name => exact .inr (.inr rfl)
      | registered => exact .inr (.inr rfl)
  | missed name build =>
      refine .inr (.inr ?_)
      simp [act, call, Call.perform, Call.builds, registerWith_eq_claim]
  | done call answer => exact .inl ⟨call, answer, rfl, rfl⟩

/-- A call stays the call that it is. -/
theorem call_act (g : Registry) (c : Caller) : (c.act g).1.call = c.call := by
  obtain ⟨call, answer, -, hact⟩ | ⟨name, build, rfl, hact⟩ | hact := c.act_cases g
  all_goals simp [hact, Caller.call]

/-- The answer of a finished call accords with a registry. -/
def Accords (g : Registry) : Caller → Prop
  | .done call answer => call.Accords g answer
  | _ => True

/-- The call is a finished registration under a name. -/
def Registered (name : String) (c : Caller) : Prop := ∃ build answer, c = .done (.registerWith name build) answer

/-- The call is about a name, and it is finished and has answered an entry. -/
def Gives (name : String) (entry : Entry) (c : Caller) : Prop :=
  ∃ call, c = .done call (.entry entry) ∧ call.name? = some name

/-- What a finished call has answered goes on to accord. -/
theorem Accords.mono {c : Caller} (h : c.Accords g) (hextends : g.Extends g') : c.Accords g' := by
  cases c with
  | waiting call => trivial
  | missed name build => trivial
  | done call answer => exact Call.Accords.mono h hextends

/-- A finished registration has answered the entry of its name. -/
theorem Registered.exists_find? {c : Caller} (h : c.Registered name) (hc : c.Accords g) :
    ∃ e, g.find? name = some e ∧ c.Gives name e := by
  obtain ⟨build, answer, rfl⟩ := h
  obtain ⟨e, rfl, hfound⟩ := hc
  exact ⟨e, hfound, _, rfl, rfl⟩

/-- An entry that has been answered is the one under the name. -/
theorem Gives.find? {c : Caller} (h : c.Gives name entry) (hc : c.Accords g) : g.find? name = some entry := by
  obtain ⟨call, rfl, hname⟩ := h
  cases call with
  | registerWith other build =>
      cases hname
      obtain ⟨e, hanswer, hfound⟩ := hc
      cases hanswer
      exact hfound
  | lookup other =>
      cases hname
      obtain hanswer | ⟨e, hanswer, hfound⟩ := hc
      · cases hanswer
      · cases hanswer
        exact hfound
  | registered => cases hname

/-! ### One phase -/

variable {c : Caller}

/-- A phase leaves every entry what it is. -/
theorem extends_act (g : Registry) (c : Caller) : g.Extends (c.act g).2.1 := by
  obtain ⟨call, answer, -, hact⟩ | ⟨name, build, -, hact⟩ | hact := c.act_cases g
  · rw [hact]
    exact fun _ _ hfound => hfound
  · rw [hact]
    exact fun _ _ hfound => hfound
  · rw [hact]
    exact c.call.extends_perform g

/-- The names after a phase: those under which a language has been built come at the end. -/
theorem names_act (g : Registry) (c : Caller) : (c.act g).2.1.names = g.names ++ (c.act g).2.2 := by
  obtain ⟨call, answer, -, hact⟩ | ⟨name, build, -, hact⟩ | hact := c.act_cases g
  · simp [hact]
  · simp [hact]
  · rw [hact]
    exact c.call.names_perform g

/-- A phase leaves the names distinct. -/
theorem nodup_act (hdistinct : g.names.Nodup) (c : Caller) : (c.act g).2.1.names.Nodup := by
  obtain ⟨call, answer, -, hact⟩ | ⟨name, build, -, hact⟩ | hact := c.act_cases g
  · rwa [hact]
  · rwa [hact]
  · rw [hact]
    exact c.call.nodup_perform hdistinct

/-- A phase leaves its call with an answer that accords, if it has one. -/
theorem accords_act (hdistinct : g.names.Nodup) (hc : c.Accords g) : (c.act g).1.Accords (c.act g).2.1 := by
  obtain ⟨call, answer, -, hact⟩ | ⟨name, build, -, hact⟩ | hact := c.act_cases g
  · rwa [hact]
  · rw [hact]
    trivial
  · rw [hact]
    exact c.call.accords_perform hdistinct

/-- **A name under which a phase builds a language** is that of a registration, which is finished by the phase. -/
theorem registered_act (hbuilt : name ∈ (c.act g).2.2) : (c.act g).1.Registered name := by
  obtain ⟨call, answer, -, hact⟩ | ⟨name, build, -, hact⟩ | hact := c.act_cases g
  · simp [hact] at hbuilt
  · simp [hact] at hbuilt
  · rw [hact] at hbuilt ⊢
    cases hcall : c.call with
    | registerWith other build =>
        simp only [hcall, Call.builds] at hbuilt
        split at hbuilt
        · rw [List.mem_singleton.mp hbuilt]
          exact ⟨build, _, rfl⟩
        · cases hbuilt
    | lookup other => simp [hcall, Call.builds] at hbuilt
    | registered => simp [hcall, Call.builds] at hbuilt

/-- A finished registration stays one. -/
theorem Registered.act (h : c.Registered name) (g : Registry) : (c.act g).1.Registered name := by
  obtain ⟨build, answer, rfl⟩ := h
  exact ⟨build, answer, rfl⟩

/-- How many phases of a call are still to come, at most. -/
def phasesLeft : Caller → Nat
  | .waiting _ => 2
  | .missed _ _ => 1
  | .done _ _ => 0

/-- A phase is one less to come. -/
theorem phasesLeft_act (g : Registry) (c : Caller) : (c.act g).1.phasesLeft ≤ c.phasesLeft - 1 := by
  obtain ⟨call, answer, rfl, hact⟩ | ⟨name, build, rfl, hact⟩ | hact := c.act_cases g
  all_goals simp [hact, phasesLeft]

end Caller

/-! ## Schedules -/

/-- A registry with its callers. -/
structure World where
  /-- The registry. -/
  registry : Registry := .empty
  /-- The callers. -/
  callers : List Caller
  /-- The names under which languages have been built, one for each run of a builder. -/
  built : List String := []

namespace World

/-- **The next phase of one call.**  All other calls stay where they are. -/
def step (w : World) (i : Nat) : World :=
  match w.callers[i]? with
  | none => w
  | some c =>
      { registry := (c.act w.registry).2.1
        callers := w.callers.set i (c.act w.registry).1
        built := w.built ++ (c.act w.registry).2.2 }

/-- One phase after the other, each of the call that the schedule names. -/
def run (w : World) (schedule : List Nat) : World := schedule.foldl step w

/-- Calls of an empty registry, all of them yet to come. -/
def begin (calls : List Call) : World := { callers := calls.map .waiting }

/-- **How far calls of an empty registry have come** after a schedule. -/
def after (calls : List Call) (schedule : List Nat) : World := (begin calls).run schedule

variable {w : World} {i j : Nat} {c : Caller} {schedule more : List Nat} {calls : List Call}

/-- A schedule in two parts. -/
theorem run_append (w : World) (schedule more : List Nat) :
    w.run (schedule ++ more) = (w.run schedule).run more := List.foldl_append

/-- A longer schedule goes on from where the shorter one has come to. -/
theorem after_append : after calls (schedule ++ more) = (after calls schedule).run more :=
  run_append _ schedule more

/-- A step of a call. -/
theorem step_eq (hc : w.callers[i]? = some c) : w.step i =
    ⟨(c.act w.registry).2.1, w.callers.set i (c.act w.registry).1, w.built ++ (c.act w.registry).2.2⟩ := by
  unfold step
  rw [hc]

/-- A step of a call that there is not. -/
theorem step_of_none (hc : w.callers[i]? = none) : w.step i = w := by
  unfold step
  rw [hc]

/-- The call that steps is one phase further. -/
theorem callers_step_self (hc : w.callers[i]? = some c) :
    (w.step i).callers[i]? = some (c.act w.registry).1 := by
  rw [step_eq hc, List.getElem?_set_self]
  exact (List.getElem?_eq_some_iff.mp hc).1

/-- The other calls are where they were. -/
theorem callers_step_of_ne (hne : i ≠ j) : (w.step i).callers[j]? = w.callers[j]? := by
  cases hc : w.callers[i]? with
  | none => rw [step_of_none hc]
  | some c => rw [step_eq hc, List.getElem?_set_ne hne]

/-- Of the calls before a step, each is one after it, but for the one that steps. -/
theorem mem_callers_step (hc : w.callers[i]? = some c) {d : Caller} (hd : d ∈ w.callers) :
    d = c ∨ d ∈ (w.step i).callers := by
  obtain ⟨j, hj⟩ := List.getElem?_of_mem hd
  by_cases hij : i = j
  · subst hij
    exact .inl (Option.some.inj (hj.symm.trans hc))
  · exact .inr (List.mem_of_getElem? ((callers_step_of_ne hij).trans hj))

/-! ### What holds at every moment -/

/-- **A registry and its callers are consistent.** -/
structure Consistent (w : World) : Prop where
  /-- No name is taken twice. -/
  distinct : w.registry.names.Nodup
  /-- A language has been built under each name that is taken, once, and under no other. -/
  built : w.built = w.registry.names
  /-- What has been answered is so. -/
  accords : ∀ c ∈ w.callers, c.Accords w.registry
  /-- A name that is taken is that of a finished registration. -/
  owned : ∀ name ∈ w.registry.names, ∃ c ∈ w.callers, c.Registered name

/-- A step leaves every entry what it is. -/
theorem extends_step (w : World) (i : Nat) : w.registry.Extends (w.step i).registry := by
  cases hc : w.callers[i]? with
  | none =>
      rw [step_of_none hc]
      exact fun _ _ hfound => hfound
  | some c =>
      rw [step_eq hc]
      exact c.extends_act w.registry

/-- **Every entry stays** under any schedule. -/
theorem extends_run (w : World) (schedule : List Nat) : w.registry.Extends (w.run schedule).registry := by
  induction schedule generalizing w with
  | nil => exact fun _ _ hfound => hfound
  | cons i rest ih => exact fun name e hfound => ih (w.step i) name e (w.extends_step i name e hfound)

namespace Consistent

/-- Calls that are yet to come are consistent with the empty registry. -/
theorem begin (calls : List Call) : (World.begin calls).Consistent where
  distinct := List.nodup_nil
  built := rfl
  accords c hc := by
    obtain ⟨call, -, rfl⟩ := List.mem_map.mp hc
    trivial
  owned := nofun

/-- **A step keeps a world consistent.** -/
theorem step (h : w.Consistent) (i : Nat) : (w.step i).Consistent := by
  cases hc : w.callers[i]? with
  | none => rwa [step_of_none hc]
  | some c =>
      have hmem : c ∈ w.callers := List.mem_of_getElem? hc
      have hself : (c.act w.registry).1 ∈ (w.step i).callers := List.mem_of_getElem? (callers_step_self hc)
      constructor
      · rw [step_eq hc]
        exact c.nodup_act h.distinct
      · rw [step_eq hc]
        show w.built ++ _ = _
        rw [h.built, c.names_act]
      · intro d hd
        rw [step_eq hc] at hd ⊢
        rcases List.mem_or_eq_of_mem_set hd with hd | rfl
        · exact (h.accords d hd).mono (c.extends_act w.registry)
        · exact Caller.accords_act h.distinct (h.accords c hmem)
      · intro name hname
        rw [step_eq hc] at hname
        rcases List.mem_append.mp (c.names_act w.registry ▸ hname) with hold | hnew
        -- the finished registration may be the very call that steps, which stays finished
        · obtain ⟨d, hd, hregistered⟩ := h.owned name hold
          rcases mem_callers_step hc hd with rfl | hd
          · exact ⟨_, hself, hregistered.act w.registry⟩
          · exact ⟨d, hd, hregistered⟩
        · exact ⟨_, hself, Caller.registered_act hnew⟩

/-- **Any schedule keeps a world consistent.** -/
theorem run (h : w.Consistent) (schedule : List Nat) : (w.run schedule).Consistent := by
  induction schedule generalizing w with
  | nil => exact h
  | cons i rest ih => exact ih (h.step i)

/-- Whatever is called, and in whatever order the calls step. -/
theorem after (calls : List Call) (schedule : List Nat) : (World.after calls schedule).Consistent :=
  (Consistent.begin calls).run schedule

/-- **All calls about a name give the same entry**, which is the one under the name. -/
theorem find?_of_gives (h : w.Consistent) {name : String} {entry : Entry} (hc : c ∈ w.callers)
    (hgives : c.Gives name entry) : w.registry.find? name = some entry :=
  hgives.find? (h.accords c hc)

/-- **The registered names are those of the finished registrations.** -/
theorem mem_registered_iff (h : w.Consistent) (name : String) :
    name ∈ w.registry.registered ↔ ∃ c ∈ w.callers, c.Registered name := by
  rw [mem_registered]
  constructor
  · exact h.owned name
  · rintro ⟨c, hc, hregistered⟩
    obtain ⟨e, hfound, -⟩ := hregistered.exists_find? (h.accords c hc)
    by_contra hfree
    rw [find?_eq_none_iff.mpr hfree] at hfound
    cases hfound

end Consistent

/-! ### Moments -/

/-- A finished call stays as it is. -/
theorem callers_run_of_done {call : Call} {answer : Answer} (hc : w.callers[i]? = some (.done call answer))
    (schedule : List Nat) : (w.run schedule).callers[i]? = some (.done call answer) := by
  induction schedule generalizing w with
  | nil => exact hc
  | cons j rest ih =>
      apply ih
      by_cases hij : j = i
      · subst hij
        exact callers_step_self hc
      · rw [callers_step_of_ne hij, hc]

/-- **Every answer is that of a call made in one piece**, at a moment when the call steps. -/
theorem performed_run {call : Call} {answer : Answer}
    (hdone : (w.run schedule).callers[i]? = some (.done call answer)) :
    w.callers[i]? = some (.done call answer) ∨
      ∃ k, schedule[k]? = some i ∧ answer = (call.perform (w.run (schedule.take k)).registry).1 := by
  induction schedule generalizing w with
  | nil => exact .inl hdone
  | cons j rest ih =>
      rcases ih hdone with hstep | ⟨k, hk, hanswer⟩
      · by_cases hij : j = i
        · subst hij
          cases hc : w.callers[j]? with
          | none =>
              rw [step_of_none hc, hc] at hstep
              cases hstep
          | some c =>
              rw [callers_step_self hc] at hstep
              -- the call was finished before this step, puts off its end by one phase, or is performed now
              obtain ⟨-, -, -, hact⟩ | ⟨name, build, -, hact⟩ | hact := c.act_cases w.registry
              · rw [hact] at hstep
                exact .inl hstep
              · rw [hact] at hstep
                cases hstep
              · rw [hact] at hstep
                cases hstep
                exact .inr ⟨0, rfl, rfl⟩
        · rw [callers_step_of_ne hij] at hstep
          exact .inl hstep
      · exact .inr ⟨k + 1, hk, hanswer⟩

/-- **A look-up of a registered name that has yet to read** answers the entry once it is scheduled. -/
theorem lookup_run {name : String} {entry : Entry} (hfound : w.registry.find? name = some entry)
    (hc : w.callers[i]? = some (.waiting (.lookup name))) (hmem : i ∈ schedule) :
    (w.run schedule).callers[i]? = some (.done (.lookup name) (.entry entry)) := by
  induction schedule generalizing w with
  | nil => cases hmem
  | cons j rest ih =>
      by_cases hij : j = i
      · subst hij
        show ((w.step j).run rest).callers[j]? = _
        apply callers_run_of_done
        rw [callers_step_self hc]
        simp [Caller.act, Caller.read, Registry.lookup, Answer.ofLookup, hfound]
      · have hrest : i ∈ rest := by simpa [Ne.symm hij] using hmem
        exact ih (w.extends_step j name entry hfound) ((callers_step_of_ne hij).trans hc) hrest

/-- **A call that is scheduled twice is finished.** -/
theorem phasesLeft_run (hc : w.callers[i]? = some c) (schedule : List Nat) :
    ∃ d, (w.run schedule).callers[i]? = some d ∧ d.call = c.call ∧
      d.phasesLeft ≤ c.phasesLeft - schedule.count i := by
  induction schedule generalizing w c with
  | nil => exact ⟨c, hc, rfl, by simp⟩
  | cons j rest ih =>
      by_cases hij : j = i
      · subst hij
        obtain ⟨d, hd, hcall, hleft⟩ := ih (callers_step_self hc)
        have hact := c.phasesLeft_act w.registry
        refine ⟨d, hd, hcall.trans (c.call_act w.registry), ?_⟩
        rw [List.count_cons_self]
        omega
      · obtain ⟨d, hd, hcall, hleft⟩ := ih ((callers_step_of_ne hij).trans hc)
        refine ⟨d, hd, hcall, ?_⟩
        rwa [List.count_cons_of_ne hij]

/-- A finished registration has given an entry, which is the one that a look-up finds from then on. -/
theorem Consistent.lookup_registered (h : w.Consistent) {name : String} (hc : c ∈ w.callers)
    (hregistered : c.Registered name) : ∃ entry, c.Gives name entry ∧ w.registry.find? name = some entry ∧
      ∀ more, (w.run more).registry.lookup name = .ok entry := by
  obtain ⟨entry, hfound, hgives⟩ := hregistered.exists_find? (h.accords c hc)
  refine ⟨entry, hgives, hfound, ?_⟩
  intro more
  have hlater := extends_run w more name entry hfound
  simp [Registry.lookup, hlater]

/-- **The registry agrees with itself under any schedule.**  However many calls there are, and in whatever order their
phases come: those that give an entry for a name give the same one; no name has its language built twice; an entry that
can be seen stays; from the moment when a registration of a name is finished, look-ups of it succeed; the registered
names are those of finished registrations, in ascending order and without repetition, and a call that lists them gives
those of a moment when it steps; and a call that is scheduled twice is finished. -/
theorem agrees_run (calls : List Call) (schedule : List Nat) :
    (∀ name entry entry', ∀ c ∈ (after calls schedule).callers, ∀ d ∈ (after calls schedule).callers,
      c.Gives name entry → d.Gives name entry' → entry = entry') ∧
    (∀ name, (after calls schedule).built.count name ≤ 1) ∧
    (∀ name entry, (after calls schedule).registry.find? name = some entry →
      ∀ more, (after calls (schedule ++ more)).registry.find? name = some entry) ∧
    (∀ name, ∀ c ∈ (after calls schedule).callers, c.Registered name → ∃ entry, c.Gives name entry ∧
      ∀ more, (after calls (schedule ++ more)).registry.lookup name = .ok entry ∧
        ∀ i ∈ more, (after calls schedule).callers[i]? = some (.waiting (.lookup name)) →
          (after calls (schedule ++ more)).callers[i]? = some (.done (.lookup name) (.entry entry))) ∧
    ((after calls schedule).registry.registered.Pairwise (· < ·) ∧
      ∀ name, name ∈ (after calls schedule).registry.registered ↔
        ∃ c ∈ (after calls schedule).callers, c.Registered name) ∧
    (∀ (i : Nat) (answer : Answer), (after calls schedule).callers[i]? = some (.done .registered answer) →
      ∃ k : Nat, schedule[k]? = some i ∧ answer = .names (after calls (schedule.take k)).registry.registered) ∧
    (∀ (i : Nat) (call : Call), calls[i]? = some call → 2 ≤ schedule.count i →
      ∃ answer : Answer, (after calls schedule).callers[i]? = some (.done call answer)) := by
  have hconsistent := Consistent.after calls schedule
  refine ⟨?_, ?_, ?_, ?_, ⟨registered_sorted hconsistent.distinct, hconsistent.mem_registered_iff⟩, ?_, ?_⟩
  · intro name entry entry' c hc d hd hgives hgives'
    have hfound := hconsistent.find?_of_gives hc hgives
    have hfound' := hconsistent.find?_of_gives hd hgives'
    exact Option.some.inj (hfound.symm.trans hfound')
  · intro name
    rw [hconsistent.built]
    exact List.nodup_iff_count.mp hconsistent.distinct name
  · intro name entry hfound more
    rw [after_append]
    exact extends_run _ more name entry hfound
  · intro name c hc hregistered
    obtain ⟨entry, hgives, hfound, hlookup⟩ := hconsistent.lookup_registered hc hregistered
    refine ⟨entry, hgives, ?_⟩
    intro more
    rw [after_append]
    exact ⟨hlookup more, fun i hi hwaiting => lookup_run hfound hwaiting hi⟩
  · intro i answer hdone
    rcases performed_run hdone with hbegin | ⟨k, hk, hanswer⟩
    · simp [begin] at hbegin
    · exact ⟨k, hk, hanswer⟩
  · intro i call hcall htwice
    -- a call is two phases from its end, and one fewer each time that it is scheduled
    have hbegin : (begin calls).callers[i]? = some (.waiting call) := by simp [begin, hcall]
    obtain ⟨d, hd, hsame, hleft⟩ := phasesLeft_run hbegin schedule
    have htwo : (Caller.waiting call).phasesLeft = 2 := rfl
    have hzero : d.phasesLeft = 0 := by omega
    cases d with
    | waiting other => cases hzero
    | missed name build => cases hzero
    | done other answer =>
        cases hsame
        exact ⟨answer, hd⟩

end World

namespace Race

/-- What one registration would enter under the name. -/
def slow : Language := { (default : Language) with name := "a" }

/-- What the other one would enter. -/
def fast : Language := { (default : Language) with name := "b" }

/-- Two registrations of one name, a list of the names, a look-up, and a registration of another name. -/
def calls : List Call :=
  [.registerWith "b" fun _ => slow, .register fast, .registered, .lookup "b", .register slow]

/-- Both registrations of the one name find it free, and the second one writes first. -/
def schedule : List Nat := [0, 1, 4, 1, 2, 0, 4, 2]

/-- Both registrations of the one name have given the entry of the second one. -/
theorem callers_after :
    (World.after calls schedule).callers[0]? = some (.done (.registerWith "b" fun _ => slow) (.entry ⟨0, fast⟩)) ∧
    (World.after calls schedule).callers[1]? = some (.done (.register fast) (.entry ⟨0, fast⟩)) := by
  simp [World.after, World.begin, World.run, World.step, calls, schedule, Call.register, fast, slow, Caller.act,
    Caller.read, find?, claim, empty]

/-- The look-up reads later and answers the same entry, and the names are listed as of a moment in between. -/
theorem agrees_run_race : ∃ entry listed answer,
    (World.after calls schedule).callers[0]? = some (.done (.registerWith "b" fun _ => slow) (.entry entry)) ∧
    (World.after calls schedule).callers[1]? = some (.done (.register fast) (.entry entry)) ∧
    entry.language = fast ∧ (World.after calls schedule).built.count "b" ≤ 1 ∧
    (World.after calls (schedule ++ [3])).registry.find? "b" = some entry ∧
    (World.after calls (schedule ++ [3])).registry.lookup "b" = .ok entry ∧
    (World.after calls (schedule ++ [3])).callers[3]? = some (.done (.lookup "b") (.entry entry)) ∧
    (World.after calls schedule).registry.registered.Pairwise (· < ·) ∧
    "b" ∈ (World.after calls schedule).registry.registered ∧
    (World.after calls schedule).callers[2]? = some (.done .registered listed) ∧
    (∃ k : Nat, schedule[k]? = some 2 ∧
      listed = .names (World.after calls (schedule.take k)).registry.registered) ∧
    (World.after calls schedule).callers[4]? = some (.done (.register slow) answer) := by
  obtain ⟨hsame, hbuilt, hstays, hregistered, ⟨hsorted, hnames⟩, hmoment, htwice⟩ :=
    World.agrees_run calls schedule
  obtain ⟨hslow, hfast⟩ := callers_after
  have hmem := List.mem_of_getElem? hfast
  have hwaiting : (World.after calls schedule).callers[3]? = some (.waiting (.lookup "b")) := by rfl
  -- the entry of the second registration is the one that is found from then on
  obtain ⟨entry, hgives, hlater⟩ := hregistered "b" _ hmem ⟨_, _, rfl⟩
  obtain ⟨hlookup, hanswered⟩ := hlater [3]
  obtain rfl : entry = ⟨0, fast⟩ := hsame "b" _ _ _ hmem _ hmem hgives ⟨_, rfl, rfl⟩
  have hfound : (World.after calls schedule).registry.find? "b" = some ⟨0, fast⟩ :=
    (World.Consistent.after calls schedule).find?_of_gives hmem hgives
  obtain ⟨listed, hlisted⟩ := htwice 2 .registered rfl (by decide)
  obtain ⟨answer, hanswer⟩ := htwice 4 (.register slow) rfl (by decide)
  exact ⟨_, listed, answer, hslow, hfast, rfl, hbuilt "b", hstays "b" _ hfound [3], hlookup,
    hanswered 3 (by simp) hwaiting, hsorted, (hnames "b").mpr ⟨_, hmem, _, _, rfl⟩, hlisted,
    hmoment 2 listed hlisted, hanswer⟩

end Race

end Registry

end TreeProjection
