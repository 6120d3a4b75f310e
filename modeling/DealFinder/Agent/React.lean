/-
# The agent loop

`Agent.run` lets a policy choose actions, performs them with the registered tools, and hands the
trace back to the policy, for a bounded number of steps. A tool that requires approval is called
only after the approver said yes. What is asked and what is called, with how the call ended, is
recorded next to the world that the policy, the approver and the tools act on.

Whatever they do, and also when one raises, no such tool is called but right after a yes to the
same call (`run_gated`), and a trace that is returned tells exactly what was called and what the
calls returned (`run_tells`). While the approver says no, what a gated tool would do has no
influence at all (`run_denied`).
-/

import DealFinder.Math.Dict
import DealFinder.Math.Transaction

namespace DealFinder.React

open DealFinder.Math

/-- The values of the program: `None`, texts and whatever tools return. -/
structure Values (V : Type) where
  none : V
  str : String → V

variable {W V ε : Type}

/-- The arguments of a call, by name. -/
abbrev Args (V : Type) := List (String × V)

/-- `Tool`. -/
structure Tool (W V ε : Type) where
  name : String
  fn : Args V → Effect W ε V
  description : String
  requiresApproval : Bool

/-- `Action`. -/
structure Action (V : Type) where
  thought : String
  tool : Option String
  args : Args V
  answer : V

/-- `Step`. -/
structure Step (V : Type) where
  thought : String
  tool : Option String
  args : Args V
  observation : V

/-- `Agent`. -/
structure Agent (W V ε : Type) where
  tools : Dict String (Tool W V ε)
  policy : String → List (Step V) → Effect W ε (Action V)
  approve : String → Args V → Effect W ε Bool
  maxSteps : ℕ

/-- What ends a run early. -/
inductive AgentError (ε : Type)
  | keyError (name : String)
  | raised (e : ε)

/-- What the approver answers, and what a call of a tool returns or raises. -/
inductive Event (V ε : Type)
  | asked (name : String) (args : Args V) (yes : Bool)
  | called (name : String) (args : Args V) (result : Except ε V)

/-- The world, and the record. -/
structure Recorded (W V ε : Type) where
  world : W
  log : List (Event V ε)

/-- A part of a run. -/
abbrev Running (W V ε : Type) := Effect (Recorded W V ε) (AgentError ε)

/-- `Agent.__init__`. Of tools with one name the last counts, and without an approver every call
is approved. -/
def Agent.new (tools : List (Tool W V ε)) (policy : String → List (Step V) → Effect W ε (Action V))
    (approve : Option (String → Args V → Effect W ε Bool)) (maxSteps : ℕ) : Agent W V ε where
  tools := Dict.ofPairs (tools.map fun tool => (tool.name, tool))
  policy := policy
  approve := approve.getD fun _ _ => pure true
  maxSteps := maxSteps

namespace Agent

variable (values : Values V) (agent : Agent W V ε)

/-- Do something in the world, and put on the record how it ends. -/
def inWorld {α : Type} (x : Effect W ε α) (event : Except ε α → Option (Event V ε)) :
    Running W V ε α := fun s =>
  ((x s.world).1.mapError .raised, ⟨(x s.world).2, s.log ++ (event (x s.world).1).toList⟩)

/-- `self.approve(name, args)`. -/
def ask (name : String) (args : Args V) : Running W V ε Bool := fun s =>
  match agent.approve name args s.world with
  | (.ok yes, world) => (.ok yes, ⟨world, s.log ++ [.asked name args yes]⟩)
  | (.error e, world) => (.error (.raised e), ⟨world, s.log⟩)

/-- `tool.requires_approval and not self.approve(...)`. -/
def blocked (tool : Tool W V ε) (name : String) (args : Args V) : Running W V ε Bool :=
  if tool.requiresApproval then do
    let yes ← agent.ask name args
    pure !yes
  else pure false

/-- The step of an action that names a tool. -/
def perform (action : Action V) (name : String) : Running W V ε (Step V) :=
  match agent.tools.get? name with
  | none => Effect.raise (.keyError name)
  | some tool => do
      if ← agent.blocked tool name action.args then
        pure ⟨action.thought, some name, action.args, values.str "BLOCKED: needs human approval"⟩
      else
        let obs ← inWorld (tool.fn action.args) fun result =>
          some (.called name action.args result)
        pure ⟨action.thought, some name, action.args, obs⟩

/-- The loop of `run`, with some steps left. -/
def loop (goal : String) : ℕ → List (Step V) → Running W V ε (V × List (Step V))
  | 0, trace => pure (values.none, trace)
  | n + 1, trace => do
      let action ← inWorld (agent.policy goal trace) fun _ => none
      match action.tool with
      | none =>
          pure (action.answer, trace ++ [⟨action.thought, none, [], action.answer⟩])
      | some name =>
          let step ← agent.perform values action name
          loop goal n (trace ++ [step])

/-- `run`. -/
def run (goal : String) : Running W V ε (V × List (Step V)) :=
  agent.loop values goal agent.maxSteps []

end Agent

/-! ## Steps of the loop -/

section Steps

variable {values : Values V} {agent : Agent W V ε} {goal : String} {trace : List (Step V)} {n : ℕ}
  {s : Recorded W V ε} {action : Action V}

theorem inWorld_eq {α : Type} {x : Effect W ε α} {result : Except ε α} {world : W}
    (event : Except ε α → Option (Event V ε)) (h : x s.world = (result, world)) :
    Agent.inWorld x event s =
      (result.mapError .raised, ⟨world, s.log ++ (event result).toList⟩) := by
  rw [Agent.inWorld, h]

/-- The policy raises. -/
theorem loop_policy_error {e : ε} (world : W)
    (hpolicy : agent.policy goal trace s.world = (.error e, world)) :
    (agent.loop values goal (n + 1) trace s).1 = .error (.raised e) := by
  rw [Agent.loop, Effect.bind_of_error (inWorld_eq (fun _ => none) hpolicy)]

/-- The policy finishes. -/
theorem loop_finish {world : W} (hpolicy : agent.policy goal trace s.world = (.ok action, world))
    (htool : action.tool = none) :
    (agent.loop values goal (n + 1) trace s).1 =
      .ok (action.answer, trace ++ [⟨action.thought, none, [], action.answer⟩]) := by
  rw [Agent.loop, Effect.bind_of_ok (inWorld_eq (fun _ => none) hpolicy)]
  simp only [htool]
  rfl

/-- A tool that needs no approval is called. -/
theorem perform_free (values : Values V) {name : String} {tool : Tool W V ε}
    {result : Except ε V} {world : W}
    (htool : agent.tools.get? name = some tool) (hfree : tool.requiresApproval = false)
    (hcall : tool.fn action.args s.world = (result, world)) :
    agent.perform values action name s =
      ((result.mapError .raised).map fun obs => ⟨action.thought, some name, action.args, obs⟩,
        ⟨world, s.log ++ [.called name action.args result]⟩) := by
  have hblocked : agent.blocked tool name action.args s = (.ok false, s) := by
    rw [Agent.blocked, if_neg (hfree ▸ Bool.false_ne_true)]
    rfl
  have hworld := inWorld_eq (fun result => some (.called name action.args result)) hcall
  simp only [Agent.perform, htool]
  rw [Effect.bind_of_ok hblocked]
  cases result with
  | error e => exact Effect.bind_of_error hworld
  | ok obs => exact Effect.bind_of_ok hworld

/-- The loop after such a call. -/
theorem loop_call (values : Values V) (trace : List (Step V)) (n : ℕ) (s : Recorded W V ε)
    {name : String} {tool : Tool W V ε} {obs : V} {world world' : W}
    (hpolicy : agent.policy goal trace s.world = (.ok action, world))
    (hname : action.tool = some name) (htool : agent.tools.get? name = some tool)
    (hfree : tool.requiresApproval = false)
    (hcall : tool.fn action.args world = (.ok obs, world')) :
    agent.loop values goal (n + 1) trace s =
      agent.loop values goal n (trace ++ [⟨action.thought, some name, action.args, obs⟩])
        ⟨world', s.log ++ [.called name action.args (.ok obs)]⟩ := by
  have hperform := perform_free values (s := ⟨world, s.log ++ []⟩) htool hfree hcall
  rw [Agent.loop, Effect.bind_of_ok (inWorld_eq (fun _ => none) hpolicy)]
  simp only [hname]
  refine (Effect.bind_of_ok hperform).trans ?_
  rw [List.append_nil]

/-- Such a call raises. -/
theorem loop_call_error (s : Recorded W V ε) {name : String} {tool : Tool W V ε} {e : ε}
    {world world' : W}
    (hpolicy : agent.policy goal trace s.world = (.ok action, world))
    (hname : action.tool = some name) (htool : agent.tools.get? name = some tool)
    (hfree : tool.requiresApproval = false)
    (hcall : tool.fn action.args world = (.error e, world')) :
    (agent.loop values goal (n + 1) trace s).1 = .error (.raised e) := by
  have hperform := perform_free values (s := ⟨world, s.log ++ []⟩) htool hfree hcall
  rw [Agent.loop, Effect.bind_of_ok (inWorld_eq (fun _ => none) hpolicy)]
  simp only [hname]
  exact congrArg Prod.fst (Effect.bind_of_error hperform)

end Steps

/-! ## The gate -/

/-- Every call on the record is of a registered tool, and comes right after a yes to the same call
if the tool requires approval. -/
def Gated (agent : Agent W V ε) (log : List (Event V ε)) : Prop :=
  ∀ before name args result later, log = before ++ .called name args result :: later →
    ∃ tool, agent.tools.get? name = some tool ∧
      (tool.requiresApproval = true → ∃ earlier, before = earlier ++ [.asked name args true])

section Gate

variable {values : Values V} {agent : Agent W V ε} {α β : Type} {log more : List (Event V ε)}

theorem gated_nil (agent : Agent W V ε) : Gated agent [] := by
  intro before name args result later h
  simp at h

theorem gated_asked (name : String) (args : Args V) (yes : Bool) :
    Gated agent [.asked name args yes] := by
  intro before name' args' result later h
  rcases List.cons_eq_append_iff.1 h with ⟨-, hfirst⟩ | ⟨rest, -, hrest⟩
  · cases hfirst
  · simp at hrest

theorem Gated.append (h : Gated agent log) (hmore : Gated agent more) :
    Gated agent (log ++ more) := by
  intro before name args result later heq
  rcases List.append_eq_append_iff.1 heq with ⟨middle, rfl, hlast⟩ | ⟨middle, rfl, hfirst⟩
  · obtain ⟨tool, htool, hgate⟩ := hmore middle name args result later hlast
    refine ⟨tool, htool, fun hrequires => ?_⟩
    obtain ⟨earlier, rfl⟩ := hgate hrequires
    exact ⟨log ++ earlier, (List.append_assoc ..).symm⟩
  · cases middle with
    | nil =>
      obtain ⟨tool, htool, hgate⟩ := hmore [] name args result later (by simpa using hfirst.symm)
      refine ⟨tool, htool, fun hrequires => ?_⟩
      obtain ⟨earlier, hearlier⟩ := hgate hrequires
      simp at hearlier
    | cons event middle =>
      obtain ⟨rfl, hrest⟩ := List.cons.inj hfirst
      exact h before name args result middle rfl

/-- What a step of the trace tells of the record. It observes what the tool returned in some
world. -/
inductive Tells (values : Values V) (agent : Agent W V ε) : Step V → List (Event V ε) → Prop
  | blocked {tool : Tool W V ε} {name : String} (thought : String) (args : Args V)
      (htool : agent.tools.get? name = some tool) (hrequires : tool.requiresApproval = true) :
      Tells values agent
        ⟨thought, some name, args, values.str "BLOCKED: needs human approval"⟩
        [.asked name args false]
  | approved {tool : Tool W V ε} {name : String} (thought : String) {args : Args V} {obs : V}
      {world : W} (htool : agent.tools.get? name = some tool)
      (hrequires : tool.requiresApproval = true) (hobs : (tool.fn args world).1 = .ok obs) :
      Tells values agent ⟨thought, some name, args, obs⟩
        [.asked name args true, .called name args (.ok obs)]
  | free {tool : Tool W V ε} {name : String} (thought : String) {args : Args V} {obs : V}
      {world : W} (htool : agent.tools.get? name = some tool)
      (hrequires : tool.requiresApproval = false) (hobs : (tool.fn args world).1 = .ok obs) :
      Tells values agent ⟨thought, some name, args, obs⟩ [.called name args (.ok obs)]

theorem gated_called {tool : Tool W V ε} {name : String} (args : Args V) (result : Except ε V)
    (htool : agent.tools.get? name = some tool) (hrequires : tool.requiresApproval = false) :
    Gated agent [.called name args result] := by
  intro before name' args' result' later h
  rcases List.cons_eq_append_iff.1 h with ⟨-, hfirst⟩ | ⟨rest, -, hrest⟩
  · obtain ⟨hevent, -⟩ := List.cons.inj hfirst
    cases hevent
    exact ⟨tool, htool, fun h => absurd (hrequires.symm.trans h) Bool.false_ne_true⟩
  · simp at hrest

theorem gated_approved {tool : Tool W V ε} {name : String} (args : Args V) (result : Except ε V)
    (htool : agent.tools.get? name = some tool) :
    Gated agent [.asked name args true, .called name args result] := by
  intro before name' args' result' later h
  rcases List.cons_eq_append_iff.1 h with ⟨-, hfirst⟩ | ⟨rest, rfl, hrest⟩
  · cases hfirst
  · rcases List.cons_eq_append_iff.1 hrest with ⟨rfl, hsecond⟩ | ⟨last, -, hlast⟩
    · obtain ⟨hevent, -⟩ := List.cons.inj hsecond
      cases hevent
      exact ⟨tool, htool, fun _ => ⟨[], rfl⟩⟩
    · simp at hlast

end Gate

/-! ## What a run puts on the record -/

/-- What a part of a run puts on the record, given how it ends. -/
def Puts {α : Type} (x : Running W V ε α)
    (P : Except (AgentError ε) α → List (Event V ε) → Prop) : Prop :=
  ∀ s, ∃ more, (x s).2.log = s.log ++ more ∧ P (x s).1 more

section Puts

variable {values : Values V} {agent : Agent W V ε} {α β : Type}

theorem puts_pure {P : Except (AgentError ε) α → List (Event V ε) → Prop} {a : α}
    (h : P (.ok a) []) : Puts (pure a : Running W V ε α) P := by
  intro s
  exact ⟨[], (List.append_nil _).symm, h⟩

theorem puts_raise {P : Except (AgentError ε) α → List (Event V ε) → Prop} {e : AgentError ε}
    (h : P (.error e) []) : Puts (Effect.raise e : Running W V ε α) P := by
  intro s
  exact ⟨[], (List.append_nil _).symm, h⟩

theorem puts_inWorld (x : Effect W ε α) (event : Except ε α → Option (Event V ε)) :
    Puts (Agent.inWorld x event) fun result more =>
      ∃ world, result = (x world).1.mapError .raised ∧ more = (event (x world).1).toList := by
  intro s
  exact ⟨_, rfl, s.world, rfl, rfl⟩

/-- One part after another. -/
theorem Puts.bind {P : Except (AgentError ε) α → List (Event V ε) → Prop}
    {Q : α → Except (AgentError ε) β → List (Event V ε) → Prop}
    {R : Except (AgentError ε) β → List (Event V ε) → Prop}
    {x : Running W V ε α} {next : α → Running W V ε β} (hx : Puts x P)
    (hnext : ∀ a, Puts (next a) (Q a)) (herror : ∀ e more, P (.error e) more → R (.error e) more)
    (hok : ∀ a result first second, P (.ok a) first → Q a result second →
      R result (first ++ second)) :
    Puts (x >>= next) R := by
  intro s
  obtain ⟨first, hfirst, hP⟩ := hx s
  cases hrun : x s with
  | mk result middle =>
      rw [hrun] at hfirst hP
      cases result with
      | error e =>
          rw [Effect.bind_of_error hrun]
          exact ⟨first, hfirst, herror e first hP⟩
      | ok a =>
          rw [Effect.bind_of_ok hrun]
          obtain ⟨second, hsecond, hQ⟩ := hnext a middle
          have hlog : middle.log = s.log ++ first := hfirst
          refine ⟨first ++ second, ?_, hok a _ first second hP hQ⟩
          rw [hsecond, hlog, List.append_assoc]

theorem puts_ask (name : String) (args : Args V) :
    Puts (agent.ask name args) fun result more =>
      match result with
      | .error _ => more = []
      | .ok yes => more = [.asked name args yes] := by
  intro s
  unfold Agent.ask
  cases hrun : agent.approve name args s.world with
  | mk result world =>
      cases result with
      | error e => exact ⟨[], (List.append_nil _).symm, rfl⟩
      | ok yes => exact ⟨_, rfl, rfl⟩

/-- What the gate puts on the record. -/
theorem puts_blocked (tool : Tool W V ε) (name : String) (args : Args V) :
    Puts (agent.blocked tool name args) fun result more =>
      match result with
      | .error _ => more = []
      | .ok blocked => (tool.requiresApproval = true ∧ more = [.asked name args (!blocked)]) ∨
          (tool.requiresApproval = false ∧ blocked = false ∧ more = []) := by
  unfold Agent.blocked
  split
  case isTrue hrequires =>
    refine (puts_ask name args).bind
      (Q := fun yes result more => result = .ok (!yes) ∧ more = [])
      (fun yes => puts_pure ⟨rfl, rfl⟩) (fun e more h => h) ?_
    rintro yes result first second hfirst ⟨rfl, rfl⟩
    have hfirst : first = [.asked name args yes] := hfirst
    exact .inl ⟨hrequires, by rw [hfirst, List.append_nil, Bool.not_not]⟩
  case isFalse hrequires =>
    exact puts_pure (.inr ⟨Bool.eq_false_iff.2 hrequires, rfl, rfl⟩)

/-- What a step that names a tool puts on the record. -/
theorem puts_perform (action : Action V) (name : String) :
    Puts (agent.perform values action name) fun result more =>
      Gated agent more ∧ ∀ step, result = .ok step → Tells values agent step more := by
  unfold Agent.perform
  cases htool : agent.tools.get? name with
  | none => exact puts_raise ⟨gated_nil agent, fun step h => by cases h⟩
  | some tool =>
      refine (puts_blocked tool name action.args).bind
        (Q := fun blocked result more =>
          if blocked = true then
            result = .ok ⟨action.thought, some name, action.args,
              values.str "BLOCKED: needs human approval"⟩ ∧ more = []
          else ∃ world, more = [.called name action.args (tool.fn action.args world).1] ∧
            ∀ step, result = .ok step → ∃ obs, (tool.fn action.args world).1 = .ok obs ∧
              step = ⟨action.thought, some name, action.args, obs⟩)
        ?_ ?_ ?_
      · rintro (_ | _)
        · refine (puts_inWorld _ _).bind (Q := fun obs result more => result = .ok
            ⟨action.thought, some name, action.args, obs⟩ ∧ more = [])
            (fun obs => puts_pure ⟨rfl, rfl⟩) ?_ ?_
          · rintro e more ⟨world, -, rfl⟩
            exact ⟨world, rfl, fun step h => by cases h⟩
          · rintro obs result first second ⟨world, hobs, rfl⟩ ⟨rfl, rfl⟩
            refine ⟨world, rfl, fun step h => ⟨obs, ?_, (Except.ok.inj h).symm⟩⟩
            cases hcall : (tool.fn action.args world).1 with
            | error e => rw [hcall] at hobs; cases hobs
            | ok obs' => rw [hcall] at hobs; rw [Except.ok.inj hobs]
        · exact puts_pure ⟨rfl, rfl⟩
      · rintro e more rfl
        exact ⟨gated_nil agent, fun step h => by cases h⟩
      · rintro (_ | _) result first second hfirst hsecond
        · obtain ⟨world, rfl, hstep⟩ := hsecond
          rcases hfirst with ⟨hrequires, rfl⟩ | ⟨hrequires, -, rfl⟩
          · refine ⟨gated_approved action.args _ htool, fun step h => ?_⟩
            obtain ⟨obs, hobs, rfl⟩ := hstep step h
            rw [hobs]
            exact .approved action.thought htool hrequires hobs
          · refine ⟨gated_called action.args _ htool hrequires, fun step h => ?_⟩
            obtain ⟨obs, hobs, rfl⟩ := hstep step h
            rw [hobs]
            exact .free action.thought htool hrequires hobs
        · obtain ⟨rfl, rfl⟩ := hsecond
          rcases hfirst with ⟨hrequires, rfl⟩ | ⟨-, hno, -⟩
          · refine ⟨gated_asked name action.args false, fun step h => ?_⟩
            cases h
            exact .blocked action.thought action.args htool hrequires
          · cases hno

end Puts

/-! ## Runs -/

/-- A trace that tells of the record: one step after the other, and at most one that finishes. -/
structure Told (values : Values V) (agent : Agent W V ε) (n : ℕ) (answer : V)
    (trace : List (Step V)) (log : List (Event V ε)) : Prop where
  intro ::
  steps : ∃ steps finish pieces, trace = steps ++ finish ∧ log = pieces.flatten ∧
    List.Forall₂ (Tells values agent) steps pieces ∧
    ((finish = [] ∧ steps.length = n ∧ answer = values.none) ∨
      (∃ thought, finish = [⟨thought, none, [], answer⟩] ∧ steps.length < n))

section Runs

variable {values : Values V} {agent : Agent W V ε}

theorem told_spent : Told values agent 0 values.none [] [] :=
  ⟨[], [], [], rfl, rfl, .nil, .inl ⟨rfl, rfl, rfl⟩⟩

theorem told_finish (n : ℕ) (thought : String) (answer : V) :
    Told values agent (n + 1) answer [⟨thought, none, [], answer⟩] [] :=
  ⟨[], _, [], rfl, rfl, .nil, .inr ⟨thought, rfl, n.succ_pos⟩⟩

theorem Told.cons {n : ℕ} {answer : V} {trace : List (Step V)} {step : Step V}
    {first second : List (Event V ε)} (hfirst : Tells values agent step first)
    (hsecond : Told values agent n answer trace second) :
    Told values agent (n + 1) answer (step :: trace) (first ++ second) := by
  obtain ⟨steps, finish, pieces, rfl, rfl, htells, hend⟩ := hsecond
  refine ⟨step :: steps, finish, first :: pieces, rfl, rfl, .cons hfirst htells, ?_⟩
  rcases hend with ⟨hnil, hlength, hanswer⟩ | ⟨thought, hlast, hlength⟩
  · exact .inl ⟨hnil, congrArg (· + 1) hlength, hanswer⟩
  · exact .inr ⟨thought, hlast, Nat.succ_lt_succ hlength⟩

/-- What the loop puts on the record. -/
theorem puts_loop (values : Values V) (agent : Agent W V ε) (goal : String) (n : ℕ)
    (trace : List (Step V)) :
    Puts (agent.loop values goal n trace) fun result more =>
      Gated agent more ∧ ∀ answer whole, result = .ok (answer, whole) →
        ∃ added, whole = trace ++ added ∧ Told values agent n answer added more := by
  induction n generalizing trace with
  | zero =>
      refine puts_pure ⟨gated_nil agent, fun answer whole h => ?_⟩
      cases h
      exact ⟨[], (List.append_nil _).symm, told_spent⟩
  | succ n ih =>
      refine (puts_inWorld _ fun _ => none).bind
        (Q := fun _ result more => Gated agent more ∧
          ∀ answer whole, result = .ok (answer, whole) →
            ∃ added, whole = trace ++ added ∧ Told values agent (n + 1) answer added more)
        (fun action => ?_) ?_ ?_
      · cases htool : action.tool with
        | none =>
            refine puts_pure ⟨gated_nil agent, fun answer whole h => ?_⟩
            cases h
            exact ⟨_, rfl, told_finish n action.thought action.answer⟩
        | some name =>
            refine (puts_perform action name).bind (fun step => ih (trace ++ [step])) ?_ ?_
            · rintro e more ⟨hgated, -⟩
              exact ⟨hgated, fun answer whole h => by cases h⟩
            · rintro step result first second ⟨hfirst, hstep⟩ ⟨hsecond, hrest⟩
              refine ⟨hfirst.append hsecond, fun answer whole h => ?_⟩
              obtain ⟨added, rfl, htold⟩ := hrest answer whole h
              exact ⟨step :: added, List.append_cons .. |>.symm, .cons (hstep step rfl) htold⟩
      · rintro e more ⟨-, -, rfl⟩
        exact ⟨gated_nil agent, fun answer whole h => by cases h⟩
      · rintro action result first second ⟨-, -, rfl⟩ h
        exact h

end Runs

/-- In every run, also one that raises, every call is of a registered tool, and a tool that
requires approval is called only right after a yes to the same call. -/
theorem run_gated (values : Values V) (agent : Agent W V ε) (goal : String) (world : W) :
    Gated agent (agent.run values goal ⟨world, []⟩).2.log := by
  obtain ⟨more, hlog, hgated, -⟩ := puts_loop values agent goal agent.maxSteps [] ⟨world, []⟩
  rw [Agent.run, hlog]
  exact hgated

/-- A trace that is returned tells exactly what was asked and called, in order, with what each call
returned, within the budget. The answer is `None` after a budget used up, else that of the step
that finishes. -/
theorem run_tells (values : Values V) (agent : Agent W V ε) (goal : String) (world : W)
    (answer : V) (trace : List (Step V)) (after : Recorded W V ε)
    (hrun : agent.run values goal ⟨world, []⟩ = (.ok (answer, trace), after)) :
    Told values agent agent.maxSteps answer trace after.log := by
  obtain ⟨more, hlog, -, htold⟩ := puts_loop values agent goal agent.maxSteps [] ⟨world, []⟩
  rw [Agent.run] at hrun
  rw [hrun] at hlog htold
  obtain ⟨added, rfl, htold⟩ := htold answer trace rfl
  rw [show after.log = more from hlog]
  exact htold

/-- Texts for all values, for the examples. -/
def texts : Values String := ⟨"None", id⟩

/-- An agent that looks at an offer and tries to buy it. The world is what was spent. -/
def buyer (price : ℕ) : Agent ℕ String Empty :=
  .new [⟨"look", fun _ spent => (.ok "a used laptop", spent), "", false⟩,
      ⟨"buy", fun _ spent => (.ok "bought", spent + price), "", true⟩]
    (fun _ trace => pure
      (match trace with
        | [] => ⟨"look first", some "look", [], ""⟩
        | [_] => ⟨"buy it", some "buy", [], ""⟩
        | _ => ⟨"done", none, [], "no deal"⟩))
    (some fun _ _ => pure false) 8

theorem run_tells_buyer :
    Told texts (buyer 5) 8 "no deal"
      [⟨"look first", some "look", [], "a used laptop"⟩,
        ⟨"buy it", some "buy", [], "BLOCKED: needs human approval"⟩,
        ⟨"done", none, [], "no deal"⟩]
      [.called "look" [] (.ok "a used laptop"), .asked "buy" [] false] :=
  run_tells texts (buyer 5) "a laptop" 0 "no deal" _
    ⟨0, [.called "look" [] (.ok "a used laptop"), .asked "buy" [] false]⟩ rfl

/-! ## A gate that stays closed -/

/-- Two agents that differ only in what their gated tools do. -/
structure SameUngated (first second : Agent W V ε) : Prop where
  policy : first.policy = second.policy
  approve : first.approve = second.approve
  maxSteps : first.maxSteps = second.maxSteps
  tools : ∀ name, Option.Rel
    (fun tool tool' : Tool W V ε => tool.requiresApproval = tool'.requiresApproval ∧
      (tool.requiresApproval = false → tool.fn = tool'.fn))
    (first.tools.get? name) (second.tools.get? name)

/-- The approver never says yes to a tool that requires approval. -/
def Denies (agent : Agent W V ε) : Prop :=
  ∀ name tool, agent.tools.get? name = some tool → tool.requiresApproval = true →
    ∀ args world, (agent.approve name args world).1 ≠ .ok true

namespace SameUngated

variable {first second : Agent W V ε}

theorem ask (h : SameUngated first second) (name : String) (args : Args V) :
    first.ask name args = second.ask name args := by
  funext s
  unfold Agent.ask
  rw [h.approve]

theorem perform (h : SameUngated first second) (hdenies : Denies first) (values : Values V)
    (action : Action V) (name : String) :
    first.perform values action name = second.perform values action name := by
  unfold Agent.perform
  have hrel := h.tools name
  cases htool : first.tools.get? name with
  | none =>
      rw [htool] at hrel
      cases htool' : second.tools.get? name with
      | none => rfl
      | some tool' => rw [htool'] at hrel; cases hrel
  | some tool =>
      rw [htool] at hrel
      cases htool' : second.tools.get? name with
      | none => rw [htool'] at hrel; cases hrel
      | some tool' =>
          rw [htool'] at hrel
          obtain ⟨hrequires, hfn⟩ := Option.rel_some_some.1 hrel
          cases hgate : tool.requiresApproval with
          | false =>
              have hblocked : first.blocked tool name action.args = pure false :=
                if_neg (hgate ▸ Bool.false_ne_true)
              have hblocked' : second.blocked tool' name action.args = pure false :=
                if_neg (hrequires ▸ hgate ▸ Bool.false_ne_true)
              simp only [hblocked, hblocked', hfn hgate]
          | true =>
              funext s
              have hblocked : first.blocked tool name action.args = second.blocked tool' name
                  action.args := by
                unfold Agent.blocked
                rw [if_pos hgate, if_pos (hrequires ▸ hgate), h.ask]
              have hno : ∀ s', second.blocked tool' name action.args s ≠ (.ok false, s') := by
                intro s' hs'
                rw [← hblocked, Agent.blocked, if_pos hgate] at hs'
                obtain ⟨yes, middle, hask, hpure⟩ := Effect.exists_of_bind_ok hs'
                obtain ⟨hresult, -⟩ := Prod.mk.inj hpure
                have hyes : yes = true := by simpa using Except.ok.inj hresult
                refine hdenies name tool htool hgate action.args s.world ?_
                unfold Agent.ask at hask
                cases hrun : first.approve name action.args s.world with
                | mk result world =>
                    rw [hrun] at hask
                    cases result with
                    | error e => cases (Prod.mk.inj hask).1
                    | ok answer => rw [← hyes, Except.ok.inj (Prod.mk.inj hask).1]
              simp only [hblocked]
              cases hrun : second.blocked tool' name action.args s with
              | mk result middle =>
                  cases result with
                  | error e => rw [Effect.bind_of_error hrun, Effect.bind_of_error hrun]
                  | ok blocked =>
                      cases blocked with
                      | true => rw [Effect.bind_of_ok hrun, Effect.bind_of_ok hrun]; rfl
                      | false => exact absurd hrun (hno middle)

theorem loop (h : SameUngated first second) (hdenies : Denies first) (values : Values V)
    (goal : String) (n : ℕ) (trace : List (Step V)) :
    first.loop values goal n trace = second.loop values goal n trace := by
  induction n generalizing trace with
  | zero => rfl
  | succ n ih => simp only [Agent.loop, h.policy, h.perform hdenies, ih]

end SameUngated

/-- While the approver says no, what the gated tools would do has no influence: not on the answer
and the trace, nor on the world. -/
theorem run_denied (values : Values V) (first second : Agent W V ε)
    (h : SameUngated first second) (hdenies : Denies first) (goal : String) :
    first.run values goal = second.run values goal := by
  unfold Agent.run
  rw [h.maxSteps, h.loop hdenies]

theorem run_denied_buyer : (buyer 5).run texts "a laptop" = (buyer 7).run texts "a laptop" := by
  refine run_denied texts (buyer 5) (buyer 7) ⟨rfl, rfl, rfl, fun name => ?_⟩ ?_ "a laptop"
  · by_cases hbuy : name = "buy"
    · subst hbuy
      exact .some ⟨rfl, fun h => absurd h (by decide)⟩
    · -- Every other tool is the same for both.
      have hsame : ∀ price, (buyer price).tools.get? name =
          (Dict.empty.set "look" ⟨"look", fun _ spent => (.ok "a used laptop", spent), "",
            false⟩).get? name := fun price => Dict.get?_set_of_ne _ _ hbuy
      rw [hsame, hsame]
      cases Dict.get? _ name with
      | none => exact .none
      | some tool => exact .some ⟨rfl, fun _ => rfl⟩
  · intro name tool _ _ args world h
    exact absurd (Except.ok.inj h) Bool.false_ne_true

end DealFinder.React
