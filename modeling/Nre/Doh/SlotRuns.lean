import Nre.Doh.SlotSteps

/-!
# The programs are safe

Every operation of a request, of a host call, of `Close` and of its goroutine is made under its
precondition, whatever the others do in between. A request ends outside (`Out`), and a `Close`
that returns without an error has found `closeDone` closed and no error recorded.
-/

namespace NrePlugins.Doh.Slots

open Prog (ask)

section Judgement

variable {cfg : Configuration} {i : Nat}

abbrev SafeAct {α : Type} (cfg : Configuration) (i : Nat) (post : State → α → Prop) (p : Act α)
    (s : State) : Prop :=
  System.Safe (respond cfg) Rely (Inv cfg) Pre i post p s

/-- The others keep it for thread `i`. -/
def Stable (i : Nat) (P : State → Prop) : Prop := ∀ s s', P s → Rely i s s' → P s'

theorem stable_true : Stable i fun _ => True := fun _ _ _ _ => trivial

theorem stable_stage (P : Stage → Prop) : Stable i fun s => P (s.stage i) := by
  intro s s' h hrely
  rw [hrely.stage]
  exact h

variable {id : Nat} {h : Host} {stage : CallStage → Prop} {s : State}

theorem stable_runsCall : Stable i fun s => RunsCall i s id h stage := by
  rintro s s' ⟨call, hcall, hrunner, hrest⟩ hrely
  exact ⟨call, hrely.calls id call hcall hrunner, hrunner, hrest⟩

theorem stable_closer (closer : Closer) (h : closer.runner = some i) :
    Stable i fun s => s.closer = closer := by
  intro s s' hcloser hrely
  have hcloser' : s.closer = closer := hcloser
  rw [hrely.closer (hcloser'.symm ▸ h), hcloser']

/-- An operation under an assertion that the others keep. -/
theorem safe_ask {α : Type} {post : State → α → Prop} {op : Op} {f : Reply op → Act α}
    {P : State → Prop} (hstable : Stable i P) (hs : P s) (hpre : ∀ s, P s → Pre i s op)
    (hnext : ∀ s answer s', P s → Inv cfg s → respond cfg i s op answer s' →
      SafeAct cfg i post (f answer) s') :
    SafeAct cfg i post (ask op >>= f) s := by
  intro s' hrely hinv
  have hs' := hstable s s' hs hrely
  exact ⟨hpre s' hs', fun answer s'' hresp _ => hnext s' answer s'' hs' hinv hresp⟩

/-- The same for the last operation. -/
theorem safe_op {op : Op} {post : State → Reply op → Prop} {P : State → Prop} (hstable : Stable i P)
    (hs : P s) (hpre : ∀ s, P s → Pre i s op)
    (hpost : ∀ s answer s', P s → Inv cfg s → respond cfg i s op answer s' → post s' answer) :
    SafeAct cfg i post (ask op) s :=
  safe_ask (f := .ret) hstable hs hpre hpost

/-! ## Requests -/

theorem stage_callDone {s' : State} (hdone : callDone i s s' h) : s'.stage i = s.stage i := by
  cases h with
  | resolve endpoint message =>
    rcases hdone with rfl | rfl
    · rfl
    · rfl
  | _ =>
    obtain rfl := hdone
    rfl

/-- The calls of a request that holds its slot. -/
def Working : Call → Prop
  | .ctxErr | .isLive | .checkNow _ | .updateStatus _ _ _ | .host _ => True
  | _ => False

theorem safe_boundedHostCall (hs : s.stage i = .holding) (h : Host) :
    SafeAct cfg i (fun s _ => s.stage i = .holding) (boundedHostCall h) s := by
  refine safe_ask (stable_stage (· = .holding)) hs (fun _ _ => trivial) ?_
  rintro s₁ (_ | err) s₂ hs₁ _ hresp
  · obtain ⟨-, rfl⟩ := hresp
    refine safe_ask (stable_stage (· = .holding)) hs₁ (fun _ h => h) ?_
    rintro s₃ id s₄ hs₃ - ⟨-, rfl⟩
    refine safe_op (stable_stage (· = .holding)) hs₃ (fun _ _ => trivial) ?_
    rintro s₅ ⟨result, timedOut⟩ s₆ hs₅ - hresp
    cases timedOut with
    | false =>
      obtain ⟨_, _, _, -, rfl⟩ := hresp
      exact hs₅
    | true => exact (stage_callDone hresp.2).trans hs₅
  · exact (stage_callDone hresp).trans hs₁

theorem safe_working {c : Call} (hc : Working c) (hs : s.stage i = .holding) :
    SafeAct cfg i (fun s _ => s.stage i = .holding) (expand c) s := by
  cases c with
  | host h => exact safe_boundedHostCall hs h
  | ctxErr =>
    refine safe_op (stable_stage (· = .holding)) hs (fun _ _ => trivial) ?_
    rintro s (_ | err) s' hs _ hresp
    · exact hresp.2 ▸ hs
    · obtain rfl := hresp
      exact hs
  | isLive =>
    refine safe_op (stable_stage (· = .holding)) hs (fun _ _ => trivial) ?_
    rintro s answer s' hs - ⟨-, rfl⟩
    exact hs
  | checkNow | updateStatus =>
    refine safe_op (stable_stage (· = .holding)) hs (fun _ _ => trivial) ?_
    rintro s answer s' hs - rfl
    exact hs
  | _ => exact absurd hc id

theorem working_ensureContext : Only Working ensureContext := by
  refine Only.bind (Only.ask trivial) ?_
  rintro (_ | err) <;> trivial

theorem working_ensureLive : Only Working ensureLive := by
  refine Only.bind working_ensureContext fun _ => Only.bind (Only.ask trivial) ?_
  rintro (_ | _) <;> trivial

theorem working_now : Only Working now := by
  refine Only.bind (Only.ask trivial) ?_
  rintro ⟨(err | t), late⟩
  · trivial
  · refine Only.bind (Only.ask trivial) ?_
    rintro (_ | _) <;> trivial

section Served

variable (lib : HTTPLib) (L : RuneLower) {s : State}

theorem working_storeAnswer (key normalized : Bytes) (metadata : ResponseMetadata) :
    Only Working (storeAnswer cfg key normalized metadata) := by
  refine Only.bind working_now.attempt ?_
  rintro (err | cacheNow)
  · trivial
  refine Only.bind working_ensureLive fun _ => ?_
  simp only
  split
  · trivial
  · refine Only.bind (Only.ask trivial) ?_
    rintro ⟨(err | _), late⟩
    · trivial
    · exact working_ensureLive

theorem working_serveAnswer (query : ParsedQuery) (key : Bytes) (u : Upstream)
    (metadata : ResponseMetadata) (normalized : Bytes) :
    Only Working (serveAnswer cfg query key u metadata normalized) := by
  refine Only.bind working_ensureLive fun _ => Only.bind (Only.ask trivial) fun _ => ?_
  split
  · exact Only.bind (working_storeAnswer key normalized metadata) fun _ => trivial
  · trivial

theorem working_tryUpstreams (query : ParsedQuery) (outbound key : Bytes) (ups : List Upstream) :
    Only Working (tryUpstreams cfg query outbound key ups) := by
  induction ups with
  | nil => trivial
  | cons u rest ih =>
    unfold tryUpstreams
    split
    · exact ih
    · refine Only.bind (Only.ask trivial) ?_
      rintro ⟨result, timedOut⟩
      cases timedOut with
      | true =>
        exact Only.bind (Only.ask trivial) fun _ => Only.bind working_ensureContext fun _ => ih
      | false =>
        cases result with
        | error err => exact Only.bind (Only.ask trivial) fun _ => ih
        | ok wire =>
          simp only [Bool.false_eq_true, if_false]
          split
          · exact Only.bind (Only.ask trivial) fun _ => ih
          · exact working_serveAnswer query key u _ _

theorem working_serveSlot (query : ParsedQuery) (outbound ecsSource : Bytes) :
    Only Working (serveSlot cfg lib L query outbound ecsSource) := by
  refine Only.bind working_ensureContext fun _ => Only.bind working_ensureLive fun _ =>
    Only.bind working_now fun now => Only.bind working_ensureLive fun _ =>
    Only.bind (Only.ask trivial) ?_
  rintro ⟨(err | found), late⟩
  · trivial
  refine Only.bind working_ensureLive fun _ => ?_
  cases found with
  | none => exact working_tryUpstreams query outbound _ _
  | some entry =>
    show Only Working (serveHit cfg query entry now)
    unfold serveHit
    split
    · trivial
    · exact Only.bind working_ensureLive fun _ => trivial

/-- The end of a request that holds a slot. -/
theorem safe_return (hs : s.stage i = .holding) (result : Except Err HTTPResponse) :
    SafeAct cfg i (fun s _ => s.stage i = .counted ∨ s.stage i = .returned)
      ((do
        ask Call.cancel
        ask Call.returnSlot
        Prog.ofExcept result : Serve HTTPResponse).attempt.interpret expand) s := by
  refine safe_ask (stable_stage (· = .holding)) hs (fun _ _ => trivial) ?_
  rintro s₁ _ s₂ hs₁ - rfl
  have hlast : ∀ {s : State}, s.stage i = .returned →
      SafeAct cfg i (fun s _ => s.stage i = .counted ∨ s.stage i = .returned)
        ((Prog.ofExcept result : Serve HTTPResponse).attempt.interpret expand) s := by
    intro s hs
    cases result with
    | ok | error => exact .inr hs
  refine System.Safe.bind (safe_ask (stable_stage (· = .holding)) hs₁ (fun _ h => h) ?_)
  rintro s₃ should s₄ - - hresp
  obtain ⟨hshould, rfl⟩ := Prod.mk.inj (show (should, s₄) = s₃.returned i from hresp)
  have hstage : (s₃.returned i).2.stage i = if should then .returning else .returned := by
    rw [hshould]
    exact Function.update_self _ _ _
  cases should with
  | false => exact hlast hstage
  | true =>
    refine safe_op (stable_stage (· = .returning)) hstage (fun _ h => h) ?_
    rintro s₅ _ s₆ - - rfl
    exact hlast (Function.update_self _ _ _)

theorem safe_holding (hs : s.stage i = .holding) (query : ParsedQuery) (outbound ecsSource : Bytes)
    :
    SafeAct cfg i (fun s _ => s.stage i = .counted ∨ s.stage i = .returned)
      ((do
        let result ← (serveSlot cfg lib L query outbound ecsSource).attempt
        ask Call.cancel
        ask Call.returnSlot
        Prog.ofExcept result : Serve HTTPResponse).attempt.interpret expand) s := by
  rw [Prog.attempt_bind_attempt, Prog.interpret_bind]
  refine System.Safe.bind (System.Safe.mono ?_ fun s result hs => safe_return hs result)
  exact System.Safe.interpret (fun c hc s hs => safe_working hc hs)
    (working_serveSlot lib L query outbound ecsSource).attempt hs

/-- A request between `beginRequest` and its release. -/
theorem safe_serveCounted (hs : s.stage i = .counted) (request : HTTPRequest) :
    SafeAct cfg i (fun s _ => s.stage i = .counted ∨ s.stage i = .returned)
      ((serveCounted cfg lib L request).attempt.interpret expand) s := by
  unfold serveCounted
  cases parseHTTPRequest lib request with
  | error e => exact .inl hs
  | ok query =>
    refine safe_ask (stable_stage (· = .counted)) hs (fun _ h => h) ?_
    intro s₁ acquired s₂ hs₁ _ hresp
    simp only [respond] at hresp
    split at hresp
    · obtain ⟨rfl, rfl⟩ := hresp
      have hholding : (s₁.acquireSlot i).stage i = .holding := Function.update_self _ _ _
      exact safe_holding lib L hholding query _ _
    · obtain ⟨rfl, rfl⟩ := hresp
      exact .inl hs₁

/-- It never entered, or it has left. -/
def Out (stage : Stage) : Prop := stage = .fresh ∨ stage = .left ∨ stage = .refused

theorem out_uncount : Out ((s.uncount i).stage i) := by
  show Out (Function.update s.stage i _ i)
  rw [Function.update_self]
  split
  · exact .inr (.inl rfl)
  · exact .inr (.inr rfl)

theorem safe_inside (hs : s.stage i = .counted) (request : HTTPRequest) :
    SafeAct cfg i (fun s _ => Out (s.stage i))
      ((do
        let result ← (serveCounted cfg lib L request).attempt
        ask Call.releaseRequest
        Prog.ofExcept result : Serve HTTPResponse).attempt.interpret expand) s := by
  rw [Prog.attempt_bind_attempt, Prog.interpret_bind]
  refine System.Safe.bind (System.Safe.mono (safe_serveCounted lib L hs request) ?_)
  intro s result hs
  refine safe_ask (stable_stage fun stage => stage = .counted ∨ stage = .returned) hs
    (fun _ h => h) ?_
  rintro s₁ _ s₂ - - rfl
  cases result with
  | ok | error => exact out_uncount

theorem safe_serveRequest (hs : s.stage i = .fresh) (request : HTTPRequest) :
    SafeAct cfg i (fun s _ => Out (s.stage i)) (serveRequest cfg lib L request) s := by
  refine System.Safe.bind (System.Safe.mono ?_ fun s _ hs => hs)
  refine safe_ask (stable_stage (· = .fresh)) hs (fun _ _ => trivial) ?_
  rintro s₁ (_ | err) s₂ hs₁ - rfl
  · refine System.Safe.bind (safe_ask (stable_stage (· = .fresh)) hs₁ (fun _ h => h) ?_)
    rintro s₃ live s₄ hs₃ - ⟨hlive, rfl⟩
    cases live with
    | false =>
      rw [← hlive]
      exact .inl hs₃
    | true =>
      rw [← hlive]
      have hcounted : (s₃.countRequest i).stage i = .counted := Function.update_self _ _ _
      refine safe_ask (stable_stage (· = .counted)) hcounted (fun _ _ => trivial) ?_
      rintro s₅ err s₆ hs₅ - hresp
      cases err with
      | some err =>
        obtain rfl := hresp
        refine safe_ask (stable_stage (· = .counted)) hs₅ (fun _ h => .inl h) ?_
        rintro s₇ _ s₈ - - rfl
        exact out_uncount
      | none =>
        obtain ⟨-, rfl⟩ := hresp
        exact safe_inside lib L hs₅ request
  · exact .inl hs₁

end Served

/-! ## Host calls -/

theorem runsCall_setCall {old new : HostCall} (hold : s.calls[id]? = some old)
    (hrunner : new.runner = some i) (hhost : new.host = h) (hstage : stage new.stage) :
    RunsCall i (s.setCall id new) id h stage :=
  ⟨new, by simp [State.setCall, (List.getElem?_eq_some_iff.mp hold).1], hrunner, hhost, hstage⟩

/-- The look at the context that a call of the cache begins with. -/
theorem safe_look {α : Type} {post : State → α → Prop} {f : Option Err → Act α}
    (hs : RunsCall i s id h (· = .running))
    (hdone : ∀ s err, RunsCall i s id h (· = .running) → SafeAct cfg i post (f (some err)) s)
    (hgoOn : ∀ s, RunsCall i s id h (· = .checked) → SafeAct cfg i post (f none) s) :
    SafeAct cfg i post (ask (Op.look id) >>= f) s := by
  refine safe_ask stable_runsCall hs (fun _ hs => ⟨h, hs⟩) ?_
  rintro s (_ | err) s' hs _ hresp
  · obtain ⟨call, hcall, -, rfl⟩ := hresp
    obtain ⟨call', hcall', hrunner, hhost, -⟩ := hs
    cases hcall.symm.trans hcall'
    exact hgoOn _ (runsCall_setCall hcall hrunner hhost rfl)
  · obtain ⟨_, -, rfl⟩ := hresp
    exact hdone _ err hs

theorem RunsCall.weaken {next : CallStage → Prop} (hs : RunsCall i s id h stage)
    (himp : ∀ st, stage st → next st) : RunsCall i s id h next := by
  obtain ⟨call, hcall, hrunner, hhost, hstage⟩ := hs
  exact ⟨call, hcall, hrunner, hhost, himp _ hstage⟩

theorem RunsCall.pending_of_running (hs : RunsCall i s id h (· = .running)) :
    RunsCall i s id h (·.pending = true) :=
  hs.weaken fun _ hst => by rw [hst]; rfl

theorem safe_external (hs : RunsCall i s id h (· = .running)) :
    SafeAct cfg i (fun s _ => RunsCall i s id h (·.pending = true)) (ask (Op.external id h)) s := by
  refine safe_op stable_runsCall hs (fun _ _ => trivial) ?_
  rintro s answer s' hs - rfl
  exact hs.pending_of_running

theorem safe_invoke (h : Host) (hs : RunsCall i s id h (· = .running)) :
    SafeAct cfg i (fun s _ => RunsCall i s id h (·.pending = true)) (invoke id h) s := by
  cases h with
  | cacheGet key now =>
    refine safe_look hs (fun s err hs => hs.pending_of_running) ?_
    intro s hs
    refine safe_op stable_runsCall hs (fun _ _ => trivial) ?_
    rintro s answer s' hs - ⟨-, rfl⟩
    have hpending : RunsCall i s id _ (·.pending = true) := hs.weaken fun _ hst => by rw [hst]; rfl
    exact hpending
  | cachePut key entry =>
    refine safe_look hs (fun s err hs => hs.pending_of_running) ?_
    intro s hs
    refine safe_op stable_runsCall hs (fun _ hs => hs) ?_
    rintro s answer s' ⟨call, hcall, hrunner, hhost, -⟩ - ⟨call', hcall', -, rfl⟩
    cases hcall.symm.trans hcall'
    exact runsCall_setCall (s := { s with cache := _ }) hcall hrunner hhost rfl
  | clockNow | resolve => exact safe_external hs

theorem safe_hostCall (id : Nat) : SafeAct cfg i (fun _ _ => True) (hostCall id) s := by
  refine safe_ask stable_true trivial (fun _ _ => trivial) ?_
  rintro s₁ h s₂ - - ⟨call, hcall, -, rfl, rfl⟩
  refine System.Safe.bind (System.Safe.mono
    (safe_invoke call.host (runsCall_setCall hcall rfl rfl rfl)) ?_)
  intro s result hs
  have hdeliver : ∀ {s : State}, RunsCall i s id call.host (· = .ended) →
      SafeAct cfg i (fun _ _ => True) (ask (Op.deliver id call.host result)) s := fun hs =>
    safe_op stable_runsCall hs (fun _ hs => hs) fun _ _ _ _ _ _ => trivial
  refine safe_ask stable_runsCall hs (fun _ hs => ⟨_, hs⟩) ?_
  rintro s₃ should s₄ ⟨call₃, hcall₃, hrunner, hhost, -⟩ - ⟨call', hcall', hend⟩
  cases hcall₃.symm.trans hcall'
  obtain ⟨hshould, rfl⟩ := Prod.mk.inj (show (should, s₄) = s₃.endCall id call₃ from hend)
  have hruns : RunsCall i (s₃.endCall id call₃).2 id call.host
      (· = if should then .ending else .ended) := by
    rw [hshould]
    exact runsCall_setCall (s := s₃.setSlot _ _) hcall₃ hrunner hhost rfl
  cases should with
  | false => exact hdeliver hruns
  | true =>
    refine safe_ask stable_runsCall hruns (fun _ hs => ⟨_, hs⟩) ?_
    rintro s₅ _ s₆ ⟨call₅, hcall₅, hrunner₅, hhost₅, -⟩ - ⟨call', hcall', rfl⟩
    cases hcall₅.symm.trans hcall'
    exact hdeliver (runsCall_setCall (s := s₅.giveBack _) hcall₅ hrunner₅ hhost₅ rfl)

/-! ## Close -/

theorem safe_awaitClose :
    SafeAct cfg i (fun s _ => s.closeDone = true ∧ s.closeErr = .ok ())
      (do Prog.ofExcept (← ask Op.awaitClose)) s := by
  refine safe_ask stable_true trivial (fun _ _ => trivial) ?_
  rintro s answer s' - - ⟨hanswer, rfl⟩
  refine System.Safe.ofExcept ?_
  rintro _ rfl
  rcases hanswer with ⟨hdone, herr⟩ | herr | herr
  · exact ⟨hdone, herr.symm⟩
  · cases herr
  · cases herr

theorem safe_close :
    SafeAct cfg i (fun s _ => s.closeDone = true ∧ s.closeErr = .ok ()) close s := by
  have hinside : Stable i fun s => s.once = .inside i := fun s s' h hrely => hrely.once h
  have hrevoked : Stable i fun s => s.once = .inside i ∧ s.live = false :=
    fun s s' h hrely => ⟨hrely.once h.1, hrely.live h.2⟩
  refine safe_ask stable_true trivial (fun _ _ => trivial) ?_
  intro s₁ first s₂ _ _ hresp
  cases first with
  | false => exact safe_awaitClose
  | true =>
    obtain ⟨-, rfl⟩ := hresp
    refine safe_ask hinside rfl (fun _ _ => trivial) ?_
    rintro s₃ _ s₄ hs₃ - rfl
    refine safe_ask hrevoked ⟨hs₃, rfl⟩ (fun _ _ => trivial) ?_
    rintro s₅ _ s₆ hs₅ - rfl
    refine safe_ask hrevoked hs₅ (fun _ _ => trivial) ?_
    rintro s₇ _ s₈ hs₇ - rfl
    refine safe_ask hrevoked hs₇ (fun _ hs => hs) ?_
    intro s₉ _ s₁₀ _ _ _
    exact safe_awaitClose

theorem safe_closer : SafeAct cfg i (fun _ _ => True) closer s := by
  refine safe_ask stable_true trivial (fun _ _ => trivial) ?_
  rintro s₁ _ s₂ - - ⟨-, rfl⟩
  refine safe_ask (stable_closer (.running i) rfl) rfl (fun _ hs => hs) ?_
  rintro s₃ channel s₄ - - ⟨rfl, rfl⟩
  refine safe_ask (stable_closer (.waiting i s₃.requestZero) rfl) rfl (fun _ hs => hs) ?_
  rintro s₅ _ s₆ - - ⟨-, rfl⟩
  refine safe_ask (stable_closer (.drained i) rfl) rfl (fun _ hs => hs) ?_
  intro s₇ result s₈ _ _ hresp
  have hreset : s₈.closer = .reset i result := by
    cases result with
    | ok | error =>
      obtain rfl := hresp
      rfl
  refine safe_ask (stable_closer (.reset i result) rfl) hreset (fun _ hs => hs) ?_
  rintro s₉ _ s₁₀ - - rfl
  exact safe_op (stable_closer (.recorded i result) rfl) rfl (fun _ hs => ⟨result, hs⟩)
    fun _ _ _ _ _ _ => trivial

end Judgement

end NrePlugins.Doh.Slots
