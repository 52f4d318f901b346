import Nre.PolicyGuest.Host

/-!
# What a client asks of its host

The host may report any status and any length on any call. The client still calls it at most
`maxCalls` times, repeats only reads, and only once and with the buffer that the host asked for,
and reads no more than what it offered.

The host keeps a record of its calls (`HostTransport.recorded`); `Spent` says what one part of an
operation has added to it, and `host_calls_within_budget` says it of every operation of a run.
-/

namespace NrePlugins.PolicyGuest

open HostClient

variable {σ α β : Type} {requestBytes responseBytes : Nat}

/-! ## Records -/

/-- A call of the transport: the buffer offered, and the packed result. -/
structure HostCall where
  imp : HostImport
  request : Bytes
  capacity : Nat
  packed : UInt64

/-- The status and the length that the host reported. -/
def HostCall.reported (call : HostCall) : Option (AbiStatus × Nat) :=
  (unpackHostResult call.packed).toOption

/-- The same host, with a record of its calls. -/
def HostTransport.recorded (t : HostTransport σ) : HostTransport (σ × List HostCall) where
  call s imp request buffer :=
    let answer := t.call s.1 imp request buffer
    (answer.1, (answer.2, s.2 ++ [⟨imp, request, buffer.length, answer.1.1⟩]))

/-- A client whose host keeps a record. -/
abbrev RecordedClient (σ : Type) (requestBytes responseBytes : Nat) :=
  HostClient (σ × List HostCall) requestBytes responseBytes

/-- The imports that change something on the host. -/
def HostImport.sideEffecting : HostImport → Bool
  | statePut | emitEvent | addMetric => true
  | _ => false

/-- The calls that one operation may make. -/
structure Budgeted (responseBytes : Nat) (imp : HostImport) (calls : List HostCall) : Prop where
  same : ∀ call ∈ calls, call.imp = imp
  atMost : calls.length ≤ if imp.sideEffecting then 1 else 2
  grown : ∀ first second, calls = [first, second] →
    first.reported = some (.resourceExhausted, second.capacity) ∧ second.capacity ≤ responseBytes

theorem Budgeted.nil (imp : HostImport) : Budgeted responseBytes imp [] :=
  ⟨fun _ h => (by cases h), Nat.zero_le _, fun _ _ h => (by cases h)⟩

theorem Budgeted.one {imp : HostImport} {call : HostCall} (h : call.imp = imp) :
    Budgeted responseBytes imp [call] := by
  refine ⟨?_, ?_, fun _ _ h => (by cases h)⟩
  · intro other hother
    rw [List.mem_singleton.mp hother, h]
  · split <;> simp

theorem Budgeted.two {imp : HostImport} {first second : HostCall} (hfirst : first.imp = imp)
    (hsecond : second.imp = imp) (hretry : imp.permitsResponseGrowthRetry = true)
    (hasked : first.reported = some (.resourceExhausted, second.capacity))
    (hfits : second.capacity ≤ responseBytes) : Budgeted responseBytes imp [first, second] := by
  refine ⟨?_, ?_, ?_⟩
  · intro call hcall
    rcases List.mem_pair.mp hcall with rfl | rfl
    · exact hfirst
    · exact hsecond
  · cases imp with
    | statePut | emitEvent | addMetric => cases hretry
    | _ => exact Nat.le_refl 2
  · intro a b hab
    cases hab
    exact ⟨hasked, hfits⟩

/-! ## Parts of an operation -/

/-- A part of an operation ends with a result and a client, or fails and leaves one. -/
def Ends (x : ClientM σ requestBytes responseBytes GuestError α)
    (c : HostClient σ requestBytes responseBytes)
    (post : Option α → HostClient σ requestBytes responseBytes → Prop) : Prop :=
  match x c with
  | .ok a c' => post (some a) c'
  | .error _ c' => post none c'

section

variable {x : ClientM σ requestBytes responseBytes GuestError α}
  {f : α → ClientM σ requestBytes responseBytes GuestError β}
  {c c' : HostClient σ requestBytes responseBytes}
  {post : Option β → HostClient σ requestBytes responseBytes → Prop}

theorem Ends.bind (mid : Option α → HostClient σ requestBytes responseBytes → Prop)
    (hx : Ends x c mid) (hok : ∀ a c', mid (some a) c' → Ends (f a) c' post)
    (herror : ∀ c', mid none c' → post none c') : Ends (x >>= f) c post := by
  unfold Ends at hx ⊢
  cases hresult : x c with
  | ok a c' =>
    rw [hresult] at hx
    rw [ClientM.bind_ok hresult]
    exact hok a c' hx
  | error e c' =>
    rw [hresult] at hx
    rw [ClientM.bind_error hresult]
    exact herror c' hx

/-- A part that has ended with a result. -/
theorem Ends.of_ok {a : α} (hx : x c = .ok a c') (hf : Ends (f a) c' post) :
    Ends (x >>= f) c post := by
  unfold Ends at hf ⊢
  rwa [ClientM.bind_ok hx]

theorem Ends.lift {r : Except GuestError β} (hok : ∀ b, r = .ok b → post (some b) c)
    (herror : post none c) : Ends (liftExcept r) c post := by
  cases r with
  | ok b => exact hok b rfl
  | error e => exact herror

end

/-- What has been asked of the host between two states of a client. -/
structure Spent (c c' : RecordedClient σ requestBytes responseBytes) (calls : List HostCall) :
    Prop where
  log : c'.transport.2 = c.transport.2 ++ calls
  limits : c'.limits = c.limits
  counted : c.calls + calls.length ≤ c'.calls
  bounded : c.calls ≤ c.limits.maxCalls → c'.calls ≤ c.limits.maxCalls

variable {t : HostTransport σ} {c c' c'' : RecordedClient σ requestBytes responseBytes}
  {imp : HostImport} {request : Bytes} {calls calls' : List HostCall}

theorem Spent.refl (c : RecordedClient σ requestBytes responseBytes) : Spent c c [] :=
  ⟨(List.append_nil _).symm, rfl, Nat.le_refl _, id⟩

theorem Spent.trans (h : Spent c c' calls) (h' : Spent c' c'' calls') :
    Spent c c'' (calls ++ calls') := by
  refine ⟨?_, h'.limits.trans h.limits, ?_, ?_⟩
  · rw [h'.log, h.log, List.append_assoc]
  · have := h.counted
    have := h'.counted
    rw [List.length_append]
    omega
  · intro hwithin
    rw [← h.limits]
    exact h'.bounded (h.limits ▸ h.bounded hwithin)

/-- `call_once`: one call if it returns, at most one if it fails. -/
def CalledOnce (imp : HostImport) (capacity : Nat)
    (c : RecordedClient σ requestBytes responseBytes) :
    Option (AbiStatus × Nat) → RecordedClient σ requestBytes responseBytes → Prop
  | none, c' => Spent c c' [] ∨ ∃ call : HostCall, Spent c c' [call] ∧ call.imp = imp ∧
      call.capacity = capacity
  | some (status, length), c' => ∃ call : HostCall, Spent c c' [call] ∧ call.imp = imp ∧
      call.capacity = capacity ∧ capacity ≤ responseBytes ∧
      call.reported = some (status, length) ∧ (status = .ok → length ≤ capacity)

theorem callOnce_ends {capacity : Nat} :
    Ends (callOnce t.recorded imp request capacity) c (CalledOnce imp capacity c) := by
  unfold Ends callOnce
  split_ifs with hcalls hrequest hcapacity
  · exact .inl (.refl c)
  · exact .inl ⟨(List.append_nil _).symm, rfl, Nat.le_succ _, fun _ => Nat.not_le.mp hcalls⟩
  · have hlength : (c.response.take capacity).length = capacity := by
      rw [List.length_take, c.size]
      omega
    obtain ⟨call, hcall⟩ : ∃ call : HostCall, call = ⟨imp, request, capacity,
      (t.call c.transport.1 imp request (c.response.take capacity)).1.1⟩ := ⟨_, rfl⟩
    have hspent : Spent c (c.called capacity hcapacity
        (t.recorded.call c.transport imp request (c.response.take capacity)).1.2
        (t.recorded.call c.transport imp request (c.response.take capacity)).2) [call] := by
      refine ⟨?_, rfl, Nat.le_refl _, fun _ => Nat.not_le.mp hcalls⟩
      rw [hcall]
      show c.transport.2 ++ [⟨imp, request, (c.response.take capacity).length, _⟩] = _
      rw [hlength]
    have himp : call.imp = imp ∧ call.capacity = capacity := by
      rw [hcall]
      exact ⟨rfl, rfl⟩
    have hreported : call.reported = (unpackHostResult
        (t.recorded.call c.transport imp request (c.response.take capacity)).1.1).toOption := by
      rw [hcall]
      rfl
    dsimp only
    cases hunpack : unpackHostResult
        (t.recorded.call c.transport imp request (c.response.take capacity)).1.1 with
    | error e => exact .inr ⟨call, hspent, himp⟩
    | ok result =>
      dsimp only
      split_ifs with hlong
      · exact .inr ⟨call, hspent, himp⟩
      · refine ⟨call, hspent, himp.1, himp.2, hcapacity, ?_, ?_⟩
        · rw [hreported, hunpack]
          rfl
        · exact fun hok => Nat.not_lt.mp fun hlt => hlong ⟨hok, hlt⟩
  · exact .inl ⟨(List.append_nil _).symm, rfl, Nat.le_succ _, fun _ => Nat.not_le.mp hcalls⟩

/-- The calls of `invoke`; the length it returns is what the host reported in the last one. -/
def Invoked (imp : HostImport) (c : RecordedClient σ requestBytes responseBytes)
    (length : Option Nat) (c' : RecordedClient σ requestBytes responseBytes) : Prop :=
  ∃ calls, Spent c c' calls ∧ Budgeted responseBytes imp calls ∧
    ∀ n ∈ length, ∃ last : HostCall, calls.getLast? = some last ∧ last.reported = some (.ok, n) ∧
      n ≤ last.capacity ∧ n ≤ responseBytes

theorem Invoked.failed (hspent : Spent c c' calls) (hbudgeted : Budgeted responseBytes imp calls) :
    Invoked imp c none c' :=
  ⟨calls, hspent, hbudgeted, fun _ h => (by cases h)⟩

theorem writtenLength_ends {last : AbiStatus × Nat} (hspent : Spent c c' calls)
    (hbudgeted : Budgeted responseBytes imp calls) {call : HostCall}
    (hlast : calls.getLast? = some call) (hreported : call.reported = some last)
    (hfits : last.1 = .ok → last.2 ≤ call.capacity) :
    Ends (writtenLength last) c' (Invoked imp c) := by
  unfold Ends writtenLength
  split_ifs with hstatus hlong
  · exact .failed hspent hbudgeted
  · exact .failed hspent hbudgeted
  · refine ⟨calls, hspent, hbudgeted, ?_⟩
    intro n hn
    cases hn
    have hok := not_not.mp hstatus
    exact ⟨call, hlast, by rw [hreported, ← hok], hfits hok, Nat.not_lt.mp hlong⟩

theorem invoke_ends : Ends (invoke t.recorded imp request) c (Invoked imp c) := by
  refine Ends.of_ok rfl (Ends.bind _ callOnce_ends ?_ ?_)
  case refine_2 =>
    rintro c' (hspent | ⟨call, hspent, himp, -⟩)
    · exact .failed hspent (.nil imp)
    · exact .failed hspent (.one himp)
  rintro ⟨status, length⟩ c₂ ⟨first, hspent, himp, hcapacity, hoffered, hreported, hfits⟩
  have hone : Budgeted responseBytes imp [first] := .one himp
  -- the second call is made only for a read, and with the length that was reported
  by_cases hretry : imp.permitsResponseGrowthRetry = true ∧ status = .resourceExhausted ∧
      c.limits.initialResponseBytes < length
  · by_cases hlong : responseBytes < length ∨ c.limits.responseWire.maxFrameBytes < length
    · rw [retryGrown, if_pos hretry, if_pos hlong]
      exact .failed hspent hone
    · refine Ends.bind (CalledOnce imp length c₂) ?_ ?_ ?_
      · rw [retryGrown, if_pos hretry, if_neg hlong]
        exact callOnce_ends
      · rintro ⟨status', length'⟩ c₃ ⟨second, hspent', himp', rfl, hoffered', hreported', hfits'⟩
        refine writtenLength_ends (hspent.trans hspent') ?_ rfl hreported' hfits'
        exact .two himp himp' hretry.1 (hretry.2.1 ▸ hreported) hoffered'
      · rintro c' (hspent' | ⟨second, hspent', himp', rfl⟩)
        · exact .failed (hspent.trans hspent') hone
        · exact .failed (hspent.trans hspent') (.two himp himp' hretry.1
            (hretry.2.1 ▸ hreported) (Nat.not_lt.mp fun h => hlong (.inl h)))
  · rw [retryGrown, if_neg hretry]
    exact .of_ok rfl (writtenLength_ends hspent hone rfl hreported fun hok => hcapacity ▸ hfits hok)

/-- An operation whose result, if it has one, is read from what the host wrote in its last
call. -/
def Answered (imp : HostImport) (reads : Bytes → WireLimits → α → Prop)
    (c : RecordedClient σ requestBytes responseBytes) (reply : Option α)
    (c' : RecordedClient σ requestBytes responseBytes) : Prop :=
  ∃ calls, Spent c c' calls ∧ Budgeted responseBytes imp calls ∧
    ∀ a ∈ reply, ∃ (last : HostCall) (slice : Bytes), calls.getLast? = some last ∧
      last.reported = some (.ok, slice.length) ∧ slice.length ≤ last.capacity ∧
      slice <+: c'.response ∧ reads slice c.limits.responseWire a

theorem Answered.failed {reads : Bytes → WireLimits → α → Prop} (hspent : Spent c c' calls)
    (hbudgeted : Budgeted responseBytes imp calls) : Answered imp reads c none c' :=
  ⟨calls, hspent, hbudgeted, fun _ h => (by cases h)⟩

theorem readResponse_ends {decode : Bytes → WireLimits → Except GuestError α} :
    Ends (readResponse t.recorded imp request decode) c
      (Answered imp (fun slice limits a => decode slice limits = .ok a) c) := by
  refine Ends.bind _ invoke_ends ?_ ?_
  · rintro n c' ⟨calls, hspent, hbudgeted, hlast⟩
    obtain ⟨last, hlast, hreported, hoffered, hfits⟩ := hlast n rfl
    have hlength : (c'.response.take n).length = n := by
      rw [List.length_take, c'.size]
      omega
    have hslice : responseBytesOf n c' = .ok (c'.response.take n) c' := by
      simp only [responseBytesOf, if_pos hfits]
      rfl
    refine Ends.of_ok hslice (Ends.of_ok rfl (Ends.lift ?_ (.failed hspent hbudgeted)))
    intro a ha
    refine ⟨calls, hspent, hbudgeted, ?_⟩
    intro b hb
    cases hb
    refine ⟨last, _, hlast, ?_, ?_, List.take_prefix n _, ?_⟩
    · rw [hlength, hreported]
    · rw [hlength]
      exact hoffered
    · rw [← hspent.limits]
      exact ha
  · rintro c' ⟨calls, hspent, hbudgeted, -⟩
    exact .failed hspent hbudgeted

theorem invokeEmpty_ends : Ends (invokeEmpty t.recorded imp request) c
    (Answered imp (fun slice _ _ => slice = []) c) := by
  refine Ends.bind _ invoke_ends ?_ ?_
  · rintro n c' ⟨calls, hspent, hbudgeted, hlast⟩
    unfold Ends
    split_ifs with hzero
    · exact .failed hspent hbudgeted
    · refine ⟨calls, hspent, hbudgeted, ?_⟩
      intro _ _
      obtain rfl := not_not.mp hzero
      obtain ⟨last, hlast, hreported, -⟩ := hlast 0 rfl
      exact ⟨last, [], hlast, hreported, Nat.zero_le _, List.nil_prefix, rfl⟩
  · rintro c' ⟨calls, hspent, hbudgeted, -⟩
    exact .failed hspent hbudgeted

/-! ## Operations -/

/-- The operations of a client. -/
inductive Operation where
  | readField (name : Str)
  | readNormalizedHttp
  | readTrustedSource
  | datasetResolve (request : DatasetResolveRequest)
  | datasetQuery (request : DatasetQueryRequest)
  | readBodyWindow (offset length : UInt32)
  | stateGet (key : Str)
  | statePut (key : Str) (value : Bytes)
  | emitEvent (code : SecurityEventCode) (action : SecurityEventAction)
  | emitPolicyEvent (event : PolicySecurityEvent)
  | addMetric (name : Str) (delta : Int64)

namespace Operation

def hostImport : Operation → HostImport
  | readField _ => .readField
  | readNormalizedHttp => .readNormalizedHttp
  | readTrustedSource => .readTrustedSource
  | datasetResolve _ => .datasetResolve
  | datasetQuery _ => .datasetQuery
  | readBodyWindow _ _ => .readBodyWindow
  | stateGet _ => .stateGet
  | statePut _ _ => .statePut
  | emitEvent _ _ | emitPolicyEvent _ => .emitEvent
  | addMetric _ _ => .addMetric

abbrev Reply : Operation → Type
  | readField _ | readBodyWindow _ _ | stateGet _ => BytesResponse
  | readNormalizedHttp => NormalizedHttpResponse
  | readTrustedSource => PolicyTrustedSourceResponse
  | datasetResolve _ => DatasetResolveResponse
  | datasetQuery _ => DatasetQueryResponse
  | statePut _ _ | emitEvent _ _ | emitPolicyEvent _ | addMetric _ _ => Unit

def perform (t : HostTransport σ) :
    (op : Operation) → ClientM σ requestBytes responseBytes GuestError op.Reply
  | readField name => HostClient.readField t name
  | readNormalizedHttp => HostClient.readNormalizedHttp t
  | readTrustedSource => HostClient.readTrustedSource t
  | datasetResolve request => HostClient.datasetResolve t request
  | datasetQuery request => HostClient.datasetQuery t request
  | readBodyWindow offset length => HostClient.readBodyWindow t offset length
  | stateGet key => HostClient.stateGet t key
  | statePut key value => HostClient.statePut t key value
  | emitEvent code action => HostClient.emitEvent t code action
  | emitPolicyEvent event => HostClient.emitPolicyEvent t event
  | addMetric name delta => HostClient.addMetric t name delta

/-- How the reply is read from a slice of the response buffer. -/
def Reads : (op : Operation) → Bytes → WireLimits → op.Reply → Prop
  | readField _, slice, limits, reply => BytesResponse.decode slice limits = .ok reply
  | readNormalizedHttp, slice, limits, reply =>
    NormalizedHttpResponse.decode slice limits = .ok reply
  | readTrustedSource, slice, limits, reply =>
    PolicyTrustedSourceResponse.decode slice limits = .ok reply
  | datasetResolve _, slice, limits, reply => DatasetResolveResponse.decode slice limits = .ok reply
  | datasetQuery request, slice, limits, reply =>
    (DatasetQueryResponse.decode slice limits >>= (·.validateFor request)) = .ok reply
  | readBodyWindow _ _, slice, limits, reply => BytesResponse.decode slice limits = .ok reply
  | stateGet _, slice, limits, reply => BytesResponse.decode slice limits = .ok reply
  | statePut _ _, slice, _, _ => slice = []
  | emitEvent _ _, slice, _, _ => slice = []
  | emitPolicyEvent _, slice, _, _ => slice = []
  | addMetric _ _, slice, _, _ => slice = []

end Operation

/-- The request is written first; one that does not fit is not sent. -/
theorem Ends.encoded {request : Except GuestError Bytes}
    {send : Bytes → ClientM (σ × List HostCall) requestBytes responseBytes GuestError α}
    {reads : Bytes → WireLimits → α → Prop}
    (h : ∀ frame, Ends (send frame) c (Answered imp reads c)) :
    Ends (liftExcept request >>= send) c (Answered imp reads c) := by
  cases request with
  | ok frame => exact .of_ok rfl (h frame)
  | error e => exact .failed (.refl c) (.nil imp)

theorem perform_ends (op : Operation) :
    Ends (op.perform t.recorded) c (Answered op.hostImport op.Reads c) := by
  cases op with
  | readNormalizedHttp | readTrustedSource => exact readResponse_ends
  | datasetResolve request =>
    refine Ends.encoded fun _ => Ends.bind _ readResponse_ends ?_ ?_
    · intro decoded c' hanswered
      split_ifs with hother
      · obtain ⟨calls, hspent, hbudgeted, -⟩ := hanswered
        exact .failed hspent hbudgeted
      · exact hanswered
    · exact fun _ h => h
  | readField | datasetQuery | readBodyWindow | stateGet =>
    exact .encoded fun _ => readResponse_ends
  | statePut | emitEvent | emitPolicyEvent | addMetric =>
    exact .encoded fun _ => invokeEmpty_ends

/-! ## Runs -/

/-- The client after a part of an operation. -/
def ClientM.after (x : ClientM σ requestBytes responseBytes GuestError α)
    (c : HostClient σ requestBytes responseBytes) : HostClient σ requestBytes responseBytes :=
  match x c with
  | .ok _ c' => c'
  | .error _ c' => c'

/-- The client after some operations; those that fail leave it usable. -/
def runs (t : HostTransport σ) (ops : List Operation)
    (c : HostClient σ requestBytes responseBytes) : HostClient σ requestBytes responseBytes :=
  ops.foldl (fun c op => ClientM.after (op.perform t) c) c

/-- What an operation has asked of the host, and what it has returned. -/
theorem perform_answered (t : HostTransport σ) (op : Operation)
    (c : RecordedClient σ requestBytes responseBytes) :
    ∃ reply, Answered op.hostImport op.Reads c reply (ClientM.after (op.perform t.recorded) c) ∧
      ∀ a c', op.perform t.recorded c = .ok a c' → reply = some a := by
  have hends := perform_ends (t := t) (c := c) op
  unfold Ends at hends
  unfold ClientM.after
  cases hresult : op.perform t.recorded c with
  | ok a c' =>
    rw [hresult] at hends
    refine ⟨some a, hends, ?_⟩
    intro a' _ h
    rw [(EStateM.Result.ok.inj h).1]
  | error e c' =>
    rw [hresult] at hends
    exact ⟨none, hends, fun _ _ h => (by cases h)⟩

/-- All calls were counted, and no more were counted than allowed. -/
structure Within (limits : HostLimits) (c : RecordedClient σ requestBytes responseBytes) :
    Prop where
  same : c.limits = limits
  counted : c.transport.2.length ≤ c.calls
  bounded : c.calls ≤ limits.maxCalls

theorem Within.spent {limits : HostLimits} (h : Within limits c) (hspent : Spent c c' calls) :
    Within limits c' := by
  obtain rfl := h.same
  refine ⟨hspent.limits, ?_, hspent.bounded h.bounded⟩
  have := h.counted
  have := hspent.counted
  rw [hspent.log, List.length_append]
  omega

theorem within_runs (t : HostTransport σ) {limits : HostLimits} (h : Within limits c)
    (ops : List Operation) : Within limits (runs t.recorded ops c) := by
  induction ops generalizing c with
  | nil => exact h
  | cons op rest ih =>
    obtain ⟨_, ⟨calls, hspent, -⟩, -⟩ := perform_answered t op c
    exact ih (h.spent hspent)

/-- **Host calls stay within their budgets.** After any operations on a new client, the host was
called at most `maxCalls` times. The calls of the next operation are as `Budgeted` says, and what
it returns was read from a slice that the host reported in the last of them and that fits the
buffer offered there. -/
theorem host_calls_within_budget (t : HostTransport σ) (s : σ) (limits : HostLimits)
    (c₀ : RecordedClient σ requestBytes responseBytes)
    (hnew : new requestBytes responseBytes (s, []) limits = .ok c₀)
    (ops : List Operation) (op : Operation) :
    (runs t.recorded (ops ++ [op]) c₀).transport.2.length ≤ limits.maxCalls ∧
    ∃ calls, (runs t.recorded (ops ++ [op]) c₀).transport.2 =
        (runs t.recorded ops c₀).transport.2 ++ calls ∧
      Budgeted responseBytes op.hostImport calls ∧
      ∀ reply c', op.perform t.recorded (runs t.recorded ops c₀) = .ok reply c' →
        ∃ (last : HostCall) (slice : Bytes), calls.getLast? = some last ∧
          last.reported = some (.ok, slice.length) ∧ slice.length ≤ last.capacity ∧
          slice <+: c'.response ∧ op.Reads slice limits.responseWire reply := by
  obtain ⟨-, hc₀⟩ := ite_error_eq_ok.mp hnew
  have hstart : Within limits c₀ := by
    cases hc₀
    exact ⟨rfl, Nat.le_refl _, Nat.zero_le _⟩
  have hall := within_runs t hstart (ops ++ [op])
  have hbefore := within_runs t hstart ops
  refine ⟨Nat.le_trans hall.counted hall.bounded, ?_⟩
  obtain ⟨reply, ⟨calls, hspent, hbudgeted, hread⟩, hreply⟩ :=
    perform_answered t op (runs t.recorded ops c₀)
  refine ⟨calls, ?_, hbudgeted, ?_⟩
  · rw [runs, List.foldl_append]
    exact hspent.log
  · intro a c' hok
    have hafter : ClientM.after (op.perform t.recorded) (runs t.recorded ops c₀) = c' := by
      rw [ClientM.after, hok]
    obtain ⟨last, slice, hlast, hreported, hfits, hslice, hreads⟩ := hread a (hreply a c' hok)
    rw [hafter] at hslice
    rw [hbefore.same] at hreads
    exact ⟨last, slice, hlast, hreported, hfits, hslice, hreads⟩

/-- A host that asks for seven bytes when it is offered fewer. -/
def growingHost : HostTransport Unit where
  call _ _ _ buffer :=
    if buffer.length < 7 then ((packHostResult .resourceExhausted 7, []), ())
    else ((packHostResult .ok 7, [10, 3, 71, 69, 84, 16, 1]), ())

/-- A read of a field is repeated once, with a buffer of the size asked for. -/
theorem host_calls_within_budget_grown : ∃ c₀ : RecordedClient Unit 64 32,
    HostClient.new 64 32 ((), []) (.new 2 2) = .ok c₀ ∧
    (runs growingHost.recorded [.readField ⟨ascii "method", by decide⟩] c₀).transport.2.map
      (·.capacity) = [2, 7] ∧
    (runs growingHost.recorded [.readField ⟨ascii "method", by decide⟩] c₀).transport.2.length
      ≤ 2 := by
  obtain ⟨c₀, hnew⟩ : ∃ c₀ : RecordedClient Unit 64 32,
    HostClient.new 64 32 ((), []) (.new 2 2) = .ok c₀ := ⟨_, rfl⟩
  refine ⟨c₀, hnew, ?_, (host_calls_within_budget growingHost () _ c₀ hnew [] _).1⟩
  cases hnew
  decide

end NrePlugins.PolicyGuest
