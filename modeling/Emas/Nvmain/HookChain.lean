/-
**Hooks in front of a module.**

`NVMObject_hook` calls the pre-issue hooks of a module, forwards the request to it, and calls the post-issue hooks.
`σ` is the state of the simulation with the request, which hooks may change. A hook is called with the module as its
parent and `NVMHOOK_PREISSUE` or `NVMHOOK_POSTISSUE` as its current hook type. `IssueFunctional` calls `IssueAtomic` of
the hooks.

* `hooks_veto_iff`: **a request is forwarded exactly if all hooks returned true**, in exactly the calls whose last hook
  refuses it or where none does; and **the order of hooks does not matter** exactly if all of them answer alike.
-/

import Emas.Nvmain.CoinMigrator

namespace Emas.Nvmain

variable {σ : Type}

/-! ### Modules and hooks -/

/-- What a hook does when it is called. -/
structure Hook (σ : Type) where
  issueCommand : HookType → σ → Bool × σ
  issueAtomic : HookType → σ → Bool × σ

/-- The module, with `GetHooks`. -/
structure Trampoline (σ : Type) where
  preHooks : List (Hook σ)
  postHooks : List (Hook σ)
  issueCommand : σ → Bool × σ
  issueAtomic : σ → Bool × σ
  issueFunctional : σ → Bool × σ

/-- What a call returns, whether the module got the request, and the state after it. -/
structure Issued (σ : Type) where
  rv : Bool
  forwarded : Bool
  world : σ

section Loops

variable (call : Hook σ → HookType → σ → Bool × σ)

/-- "Call pre-issue hooks": `dropRequest`, and the state. -/
def preIssue : List (Hook σ) → Bool × σ → Bool × σ
  | [], state => state
  | hook :: rest, (_, world) =>
    let (rv, world) := call hook .preIssue world
    preIssue rest (!rv, world)

/-- The hooks are called after the issue. -/
def postIssue : List (Hook σ) → σ → σ
  | [], world => world
  | hook :: rest, world => postIssue rest (call hook .postIssue world).2

/-- The three functions: `call` is what they call of the hooks, `forward` what they call of the module. -/
def issueWith (forward : σ → Bool × σ) (trampoline : Trampoline σ) (world : σ) : Issued σ :=
  let (dropRequest, world) := preIssue call trampoline.preHooks (false, world)
  if dropRequest then ⟨true, false, postIssue call trampoline.postHooks world⟩
  else
    let (rv, world) := forward world
    ⟨rv, true, postIssue call trampoline.postHooks world⟩

/-- What the hooks return one after the other. -/
def answers : List (Hook σ) → σ → List Bool
  | [], _ => []
  | hook :: rest, world => (call hook .preIssue world).1 :: answers rest (call hook .preIssue world).2

end Loops

/-- The functions that go through the hooks. -/
inductive IssueKind where
  | command
  | atomic
  | functional

namespace Trampoline

variable (trampoline : Trampoline σ)

/-- `NVMObject_hook::IssueCommand( req )`. -/
def hookIssueCommand : σ → Issued σ := issueWith Hook.issueCommand trampoline.issueCommand trampoline

/-- `NVMObject_hook::IssueAtomic( req )`. -/
def hookIssueAtomic : σ → Issued σ := issueWith Hook.issueAtomic trampoline.issueAtomic trampoline

/-- `NVMObject_hook::IssueFunctional( req )`. -/
def hookIssueFunctional : σ → Issued σ := issueWith Hook.issueAtomic trampoline.issueFunctional trampoline

/-- One of the three. -/
def hookIssue : IssueKind → σ → Issued σ
  | .command => trampoline.hookIssueCommand
  | .atomic => trampoline.hookIssueAtomic
  | .functional => trampoline.hookIssueFunctional

end Trampoline

def IssueKind.hookCall : IssueKind → Hook σ → HookType → σ → Bool × σ
  | command => Hook.issueCommand
  | atomic => Hook.issueAtomic
  | functional => Hook.issueAtomic

/-- `GetHooks( NVMHOOK_PREISSUE )` in another order. -/
def Trampoline.withHooks (trampoline : Trampoline σ) (hooks : List (Hook σ)) : Trampoline σ :=
  { trampoline with preHooks := hooks }

/-! ### The answer that counts -/

variable {answer : Hook σ → Bool}

section Loops

variable {call : Hook σ → HookType → σ → Bool × σ}

variable (call) in
/-- **The last answer alone** decides. -/
theorem preIssue_eq (hooks : List (Hook σ)) (dropRequest : Bool) (world : σ) :
    (preIssue call hooks (dropRequest, world)).1 = ((answers call hooks world).getLast?.map (!·)).getD dropRequest := by
  induction hooks generalizing dropRequest world with
  | nil => rfl
  | cons hook rest ih =>
    show (preIssue call rest _).1 = _
    rw [ih, answers]
    cases later : answers call rest (call hook .preIssue world).2 with
    | nil => rfl
    | cons first others =>
      rw [List.getLast?_cons_cons, List.getLast?_eq_some_getLast (List.cons_ne_nil first others)]
      rfl

theorem forwarded_issueWith (forward : σ → Bool × σ) (trampoline : Trampoline σ) (world : σ) :
    (issueWith call forward trampoline world).forwarded = true ↔
      ∀ answer ∈ (answers call trampoline.preHooks world).getLast?, answer = true := by
  have last := preIssue_eq call trampoline.preHooks false world
  unfold issueWith
  generalize preIssue call trampoline.preHooks (false, world) = state at last
  obtain ⟨dropRequest, world'⟩ := state
  cases answer : (answers call trampoline.preHooks world).getLast? with
  | none =>
    rw [answer] at last
    obtain rfl : dropRequest = false := last
    exact iff_of_true rfl nofun
  | some answer' =>
    rw [answer] at last
    obtain rfl : dropRequest = !answer' := last
    cases answer' <;> simp

theorem answers_fixed {hooks : List (Hook σ)}
    (fixed : ∀ hook ∈ hooks, ∀ world, (call hook .preIssue world).1 = answer hook) (world : σ) :
    answers call hooks world = hooks.map answer := by
  induction hooks generalizing world with
  | nil => rfl
  | cons hook rest ih =>
    rw [answers, List.map_cons, fixed hook (List.mem_cons_self ..),
      ih fun other member => fixed other (List.mem_cons_of_mem _ member)]

theorem exists_perm_last {hooks : List (Hook σ)} {hook : Hook σ} (member : hook ∈ hooks) :
    ∃ others, (others ++ [hook]).Perm hooks := by
  obtain ⟨before, after, rfl⟩ := List.append_of_mem member
  refine ⟨before ++ after, ?_⟩
  rw [List.append_assoc]
  exact (List.perm_append_singleton hook after).append_left before

end Loops

namespace Trampoline

theorem forwarded_hookIssue (trampoline : Trampoline σ) (kind : IssueKind) (world : σ) :
    (trampoline.hookIssue kind world).forwarded = true ↔
      ∀ answer ∈ (answers kind.hookCall trampoline.preHooks world).getLast?, answer = true := by
  cases kind with
  | command => exact forwarded_issueWith trampoline.issueCommand trampoline world
  | atomic => exact forwarded_issueWith trampoline.issueAtomic trampoline world
  | functional => exact forwarded_issueWith trampoline.issueFunctional trampoline world

theorem forwarded_last (trampoline : Trampoline σ) {kind : IssueKind} {others : List (Hook σ)} {hook : Hook σ}
    (fixed : ∀ other ∈ others ++ [hook], ∀ world, (kind.hookCall other .preIssue world).1 = answer other) (world : σ) :
    (((trampoline.withHooks (others ++ [hook])).hookIssue kind world).forwarded = true) ↔ answer hook = true := by
  rw [forwarded_hookIssue, withHooks, answers_fixed fixed, List.map_append, List.map_singleton, List.getLast?_concat]
  exact ⟨fun last => last _ rfl, fun last other here => Option.some.inj here ▸ last⟩

/-- **Forwarded exactly if all hooks agree**: in the calls whose last hook refuses the request, and in those where none
does. -/
theorem forwarded_iff_all (trampoline : Trampoline σ) (kind : IssueKind) (world : σ) :
    ((trampoline.hookIssue kind world).forwarded = true ↔
        ∀ answer ∈ answers kind.hookCall trampoline.preHooks world, answer = true) ↔
      (false ∈ answers kind.hookCall trampoline.preHooks world →
        (answers kind.hookCall trampoline.preHooks world).getLast? = some false) := by
  rw [forwarded_hookIssue]
  generalize answers kind.hookCall trampoline.preHooks world = replies
  constructor
  · intro veto refused
    have dropped : ¬∀ answer ∈ replies.getLast?, answer = true := fun last =>
      Bool.false_ne_true (veto.mp last false refused)
    cases last : replies.getLast? with
    | none =>
      rw [last] at dropped
      exact absurd nofun dropped
    | some answer =>
      rw [last] at dropped
      cases answer with
      | false => rfl
      | true => exact absurd (fun _ here => (Option.some.inj here).symm) dropped
  · intro refuses
    refine ⟨fun last answer member => ?_, fun all answer last => all answer (List.mem_of_getLast? last)⟩
    cases answer with
    | true => rfl
    | false => exact (last false (refuses member))

/-- **The order does not matter exactly if all hooks answer alike.** -/
theorem forwarded_perm_iff (trampoline : Trampoline σ) (kind : IssueKind)
    (fixed : ∀ hook ∈ trampoline.preHooks, ∀ world, (kind.hookCall hook .preIssue world).1 = answer hook) (world : σ) :
    (∀ hooks : List (Hook σ), hooks.Perm trampoline.preHooks →
        ((trampoline.withHooks hooks).hookIssue kind world).forwarded = (trampoline.hookIssue kind world).forwarded) ↔
      ∀ first ∈ trampoline.preHooks, ∀ second ∈ trampoline.preHooks, answer first = answer second := by
  have lastDecides : ∀ others hook, (others ++ [hook]).Perm trampoline.preHooks →
      ((trampoline.withHooks (others ++ [hook])).hookIssue kind world).forwarded = answer hook :=
    fun others hook perm => Bool.eq_iff_iff.mpr
      (trampoline.forwarded_last (fun other member => fixed other (perm.subset member)) world)
  constructor
  · intro orderless first member second member'
    obtain ⟨others, perm⟩ := exists_perm_last member
    obtain ⟨others', perm'⟩ := exists_perm_last member'
    calc answer first = (trampoline.hookIssue kind world).forwarded :=
          (lastDecides others first perm).symm.trans (orderless _ perm)
      _ = answer second := (orderless _ perm').symm.trans (lastDecides others' second perm')
  · intro alike hooks perm
    rcases List.eq_nil_or_concat' trampoline.preHooks with none' | ⟨others, hook, whole⟩
    · rw [none'] at perm
      rw [perm.eq_nil, ← none']
      rfl
    · obtain ⟨others', hook', rfl⟩ : ∃ others' hook', hooks = others' ++ [hook'] := by
        refine (List.eq_nil_or_concat' hooks).resolve_left ?_
        rintro rfl
        rw [whole] at perm
        exact absurd perm.symm.eq_nil (List.append_ne_nil_of_right_ne_nil _ (List.cons_ne_nil _ _))
      have same : (trampoline.withHooks (others ++ [hook])) = trampoline := by
        rw [withHooks, ← whole]
      have here : (others ++ [hook]).Perm trampoline.preHooks := by rw [whole]
      have last := lastDecides others hook here
      rw [same] at last
      rw [lastDecides others' hook' perm, last]
      exact alike _ (perm.subset (List.mem_append_right _ (List.mem_singleton_self _))) _
        (here.subset (List.mem_append_right _ (List.mem_singleton_self _)))

/-- **When hooks veto**, for each of the three functions. -/
theorem hooks_veto_iff (trampoline : Trampoline σ) (kind : IssueKind) (world : σ) :
    (((trampoline.hookIssue kind world).forwarded = true ↔
        ∀ answer ∈ answers kind.hookCall trampoline.preHooks world, answer = true) ↔
      (false ∈ answers kind.hookCall trampoline.preHooks world →
        (answers kind.hookCall trampoline.preHooks world).getLast? = some false)) ∧ ∀ answer : Hook σ → Bool,
      (∀ hook ∈ trampoline.preHooks, ∀ world, (kind.hookCall hook .preIssue world).1 = answer hook) →
      ((∀ hooks : List (Hook σ), hooks.Perm trampoline.preHooks →
          ((trampoline.withHooks hooks).hookIssue kind world).forwarded = (trampoline.hookIssue kind world).forwarded) ↔
        ∀ first ∈ trampoline.preHooks, ∀ second ∈ trampoline.preHooks, answer first = answer second) :=
  ⟨trampoline.forwarded_iff_all kind world, fun _ fixed => trampoline.forwarded_perm_iff kind fixed world⟩

/-- A hook that gives an answer, and a module that takes every request. -/
def answering (answer : Bool) : Hook Unit := ⟨fun _ world => (answer, world), fun _ world => (answer, world)⟩

def taking (hooks : List (Hook Unit)) : Trampoline Unit :=
  ⟨hooks, [], fun world => (true, world), fun world => (true, world), fun world => (true, world)⟩

theorem hooks_veto_iff_refusing :
    ∀ hooks : List (Hook Unit), hooks.Perm [answering false, answering false] →
      ((taking hooks).hookIssue .command ()).forwarded = false := by
  intro hooks perm
  refine (((hooks_veto_iff (taking [answering false, answering false]) .command ()).2 (fun _ => false) ?_).mpr
    (fun _ _ _ _ => rfl) hooks perm).trans rfl
  intro hook member world
  have same : hook = answering false := by simpa [taking] using member
  rw [same]
  rfl

/-- The first hook refuses the request, the second does not: it is forwarded; in the other order it is not. -/
theorem refused_request_forwarded :
    ((taking [answering false, answering true]).hookIssue .command ()).forwarded = true ∧
      ¬(∀ answer ∈ answers IssueKind.command.hookCall (taking [answering false, answering true]).preHooks (),
        answer = true) ∧ ((taking [answering true, answering false]).hookIssue .command ()).forwarded = false :=
  ⟨rfl, fun all => Bool.false_ne_true (all false (List.mem_cons_self ..)), rfl⟩

end Trampoline

end Emas.Nvmain
