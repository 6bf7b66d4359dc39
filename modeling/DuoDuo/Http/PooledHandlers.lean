import DuoDuo.Http.MessageHandling
import DuoDuo.Http.PooledBytes

/-!
# The handlers of a connection over the pool

A connection over the pool is at every moment where the connection is whose input buffer is
a list of bytes, once it has received the same reads, or on its way there: in
`parseRequest`, or in the response to the request that this call has found.
-/

namespace DuoDuo.Http

open Library Library.Machine Buffer Buffer.BufferPool

variable {httpCallback : HttpRequest → HttpResponse → HttpResponse}

namespace PooledConnection

variable {pool pool' : BufferPool} {conn conn' : PooledConnection}

/-- The connection over lists whose input buffer has the given bytes. -/
def view (conn : PooledConnection) (inputBuffer : Bytes) : HttpConnection where
  context := conn.context
  inputBuffer := inputBuffer
  connected := conn.connected
  sent := conn.sent
  requests := conn.requests

theorem view_send (conn : PooledConnection) (data inputBuffer : Bytes) :
    (conn.send data).view inputBuffer = (conn.view inputBuffer).send data := by
  have hconnected : (conn.view inputBuffer).connected = conn.connected := rfl
  rw [send, HttpConnection.send, hconnected]
  split <;> rfl

theorem view_checked (conn : PooledConnection) (ok : Bool) (inputBuffer : Bytes) :
    (conn.checked ok).view inputBuffer = (conn.view inputBuffer).checked ok := by
  cases ok with
  | true => rfl
  | false =>
    have hsend := conn.view_send badRequest inputBuffer
    change ((conn.send badRequest).view inputBuffer).shutdown = _
    rw [hsend]
    rfl

theorem send_frame (conn : PooledConnection) (data : Bytes) :
    (conn.send data).context = conn.context ∧ (conn.send data).input = conn.input ∧
      (conn.send data).reads = conn.reads := by
  rw [send]
  split <;> exact ⟨rfl, rfl, rfl⟩

theorem checked_frame (conn : PooledConnection) (ok : Bool) :
    (conn.checked ok).context = conn.context ∧ (conn.checked ok).input = conn.input ∧
      (conn.checked ok).reads = conn.reads := by
  cases ok with
  | true => exact ⟨rfl, rfl, rfl⟩
  | false =>
    exact conn.send_frame badRequest

/-- The connection over lists that has received the same reads. -/
def received (httpCallback : HttpRequest → HttpResponse → HttpResponse) (conn : PooledConnection) :
    Option HttpConnection :=
  conn.reads.foldlM (receive httpCallback) {}

/-- Where a connection is on the way of the connection over lists. -/
def Means (httpCallback : HttpRequest → HttpResponse → HttpResponse) (pool : BufferPool)
    (conn : PooledConnection) : Prop :=
  match conn.handler with
  | .polling => conn.context.Reading ∧ ∃ input, Shows pool conn.input input ∧
      conn.received httpCallback = some (conn.view input)
  | .parsing => conn.context.Reading ∧ ∃ input, Shows pool conn.input input ∧
      conn.received httpCallback = onMessage httpCallback (conn.view input)
  | .responding response => ∃ input, Shows pool conn.input input ∧
      conn.received httpCallback =
        some { (conn.view input).answer response with context := conn.context.reset }
  | .appending i response strings => ∃ input bytes, Shows pool conn.input input ∧
      Shows pool i bytes ∧ bytes ++ strings.flatten = response.appendToBuffer ∧
      conn.received httpCallback =
        some { (conn.view input).answer response with context := conn.context.reset }
  | .leaving i => ∃ input bytes, Shows pool conn.input input ∧ Shows pool i bytes ∧
      conn.received httpCallback = some { conn.view input with context := conn.context.reset }
  | .closed => ∃ input, Shows pool conn.input input ∧
      conn.received httpCallback = some (conn.view input)
  | .destroyed => ∃ input, conn.received httpCallback = some (conn.view input)

/-- What holds of a connection does so while its buffers show what they do. -/
theorem Means.frame (h : conn.Means httpCallback pool)
    (hframe : ∀ j ∈ conn.slots, ∀ bytes, Shows pool j bytes → Shows pool' j bytes) :
    conn.Means httpCallback pool' := by
  unfold Means slots at *
  cases hhandler : conn.handler with
  | polling | parsing =>
    rw [hhandler] at h hframe
    obtain ⟨hreading, input, hinput, hresult⟩ := h
    exact ⟨hreading, input, hframe _ List.mem_cons_self _ hinput, hresult⟩
  | responding response =>
    rw [hhandler] at h hframe
    obtain ⟨input, hinput, hresult⟩ := h
    exact ⟨input, hframe _ List.mem_cons_self _ hinput, hresult⟩
  | appending i response strings =>
    rw [hhandler] at h hframe
    obtain ⟨input, bytes, hinput, hbytes, hrest⟩ := h
    exact ⟨input, bytes, hframe _ List.mem_cons_self _ hinput,
      hframe _ (List.mem_cons_of_mem _ List.mem_cons_self) _ hbytes, hrest⟩
  | leaving i =>
    rw [hhandler] at h hframe
    obtain ⟨input, bytes, hinput, hbytes, hresult⟩ := h
    exact ⟨input, bytes, hframe _ List.mem_cons_self _ hinput,
      hframe _ (List.mem_cons_of_mem _ List.mem_cons_self) _ hbytes, hresult⟩
  | closed =>
    rw [hhandler] at h hframe
    obtain ⟨input, hinput, hresult⟩ := h
    exact ⟨input, hframe _ List.mem_cons_self _ hinput, hresult⟩
  | destroyed => rwa [hhandler] at h

/-- The buffers of a connection are live. -/
theorem Means.lt (h : conn.Means httpCallback pool) :
    ∀ j ∈ conn.slots, j < pool.buffers.length := by
  unfold Means at h
  unfold slots
  cases hhandler : conn.handler with
  | polling | parsing =>
    rw [hhandler] at h
    obtain ⟨-, input, hinput, -⟩ := h
    exact List.forall_mem_singleton.mpr hinput.lt
  | responding response =>
    rw [hhandler] at h
    obtain ⟨input, hinput, -⟩ := h
    exact List.forall_mem_singleton.mpr hinput.lt
  | appending i response strings =>
    rw [hhandler] at h
    obtain ⟨input, bytes, hinput, hbytes, -⟩ := h
    exact List.forall_mem_cons.mpr ⟨hinput.lt, List.forall_mem_singleton.mpr hbytes.lt⟩
  | leaving i =>
    rw [hhandler] at h
    obtain ⟨input, bytes, hinput, hbytes, -⟩ := h
    exact List.forall_mem_cons.mpr ⟨hinput.lt, List.forall_mem_singleton.mpr hbytes.lt⟩
  | closed =>
    rw [hhandler] at h
    obtain ⟨input, hinput, -⟩ := h
    exact List.forall_mem_singleton.mpr hinput.lt
  | destroyed => nofun

/-- What an action of a connection leaves. -/
structure Acts (httpCallback : HttpRequest → HttpResponse → HttpResponse)
    (pool : BufferPool) (conn : PooledConnection) (pool' : BufferPool) (conn' : PooledConnection) :
    Prop where
  served : PoolServed pool'
  means : conn'.Means httpCallback pool'
  frame : ∀ j bytes, j ∉ conn.slots → Shows pool j bytes → Shows pool' j bytes
  slots : ∀ j ∈ conn'.slots, j ∈ conn.slots ∨ pool.buffers.length ≤ j
  nodup : conn'.slots.Nodup

/-- A call for a buffer of a connection leaves those of the others as they are. -/
theorem frame_of_call {turn : Turn} (hcall : PooledServer.call pool turn = some pool')
    (hslot : ∀ i ∈ PooledServer.slot turn.call, i ∈ conn.slots) (j : ℕ) (bytes : Bytes)
    (hj : j ∉ conn.slots) (h : Shows pool j bytes) : Shows pool' j bytes :=
  h.next (PooledServer.next_of_call hcall) fun i hi heq => hj (heq ▸ hslot i hi)

variable {c : ℕ} {memoryLeft : Bool}

/-- What one more read does to the connection over lists. -/
theorem received_read {input data : Bytes}
    (hresult : conn.received httpCallback = some (conn.view input)) :
    { conn with handler := .parsing, reads := conn.reads ++ [data] }.received httpCallback =
      onMessage httpCallback (conn.view (input ++ data)) := by
  rw [received] at hresult ⊢
  rw [List.foldlM_append, hresult]
  simp only [List.foldlM_cons, List.foldlM_nil, Option.bind_eq_bind, Option.bind_some,
    Option.pure_def, Option.bind_fun_some]
  rfl

/-- At the end of the stream nothing is read. -/
theorem delivered_of_readFd_zero {thread i : ℕ} {data : Except ℤ Bytes} (hpool : PoolServed pool)
    (hread : pool.readFd PoolConfig.default.sizeClass thread i memoryLeft data =
      some (.ok (.ok 0), pool')) : delivered data = [] := by
  rcases hpool.sound.readFd_ok hread with ⟨_, _, ⟨⟩, _⟩ | ⟨_, _, data, _, _, rfl, hlength, _⟩
  rw [Except.ok.injEq] at hlength
  exact List.length_eq_zero_iff.mp hlength.symm

/-- `handleRead` hands what it has read to `parseRequest`. -/
theorem acts_read {data : Except ℤ Bytes} (hpool : PoolServed pool)
    (hmeans : conn.Means httpCallback pool)
    (hserved : ReadServedRight .default pool conn.thread conn.input (delivered data).length)
    (hact : PooledServer.act httpCallback pool conn (.read c memoryLeft data) =
      some (pool', conn')) : conn.Acts httpCallback pool pool' conn' := by
  rw [PooledServer.act] at hact
  split at hact
  · next pool₁ hhandler hread =>
    cases hact
    have hslots : conn.slots = [conn.input] := by rw [slots, hhandler]
    rw [Means, hhandler] at hmeans
    obtain ⟨-, input, hinput, hresult⟩ := hmeans
    obtain ⟨hself, hother⟩ := hinput.readFd hread
    rw [delivered_of_readFd_zero hpool hread, List.append_nil] at hself
    refine ⟨hpool.readFd hserved hread, ⟨input, hself, hresult⟩, fun j bytes hj => hother fun heq => hj ?_,
      fun j hj => .inl (hslots ▸ hj), List.nodup_singleton _⟩
    rw [hslots, heq]
    exact List.mem_cons_self
  · next pool₁ n hnonzero hhandler hread =>
    cases hact
    have hslots : conn.slots = [conn.input] := by rw [slots, hhandler]
    rw [Means, hhandler] at hmeans
    obtain ⟨hreading, input, hinput, hresult⟩ := hmeans
    obtain ⟨hself, hother⟩ := hinput.readFd hread
    refine ⟨hpool.readFd hserved hread, ⟨hreading, _, hself, received_read hresult⟩,
      fun j bytes hj => hother fun heq => hj ?_, fun j hj => .inl (hslots ▸ hj),
      List.nodup_singleton _⟩
    rw [hslots, heq]
    exact List.mem_cons_self
  · next errno pool₁ hhandler hread =>
    cases hact
    have hslots : conn.slots = [conn.input] := by rw [slots, hhandler]
    rcases hpool.sound.readFd_ok hread with ⟨_, _, _, rfl⟩ | ⟨_, _, _, _, _, _, ⟨⟩, _⟩
    exact ⟨hpool, hmeans, fun _ _ _ h => h, fun _ => .inl, hslots ▸ List.nodup_singleton _⟩
  · cases hact

/-- When `parseRequest` has returned, the connection is where the connection over lists is, but
for the response. -/
theorem means_parsed {ok : Bool} {context : HttpContext} {input rest : Bytes}
    (hshows : Shows pool conn.input rest)
    (hparses : HttpContext.Parses conn.context input ⟨ok, context, rest⟩)
    (hresult : conn.received httpCallback = onMessage httpCallback (conn.view input)) :
    ({ conn with context }.parsed httpCallback ok).Means httpCallback pool ∧
      ({ conn with context }.parsed httpCallback ok).slots = [conn.input] := by
  have honMessage : onMessage httpCallback (conn.view input) = _ := onMessage_of_parses hparses
  have hview : (({ conn with context }.checked ok).view rest) =
      HttpConnection.checked { conn.view input with context, inputBuffer := rest } ok :=
    view_checked _ ok rest
  have hparsed : { conn with context }.parsed httpCallback ok =
      if ({ conn with context }.checked ok).context.gotAll then
        { { conn with context }.checked ok with
          requests := ({ conn with context }.checked ok).requests ++
            [({ conn with context }.checked ok).context.request]
          handler := .responding (httpCallback ({ conn with context }.checked ok).context.request
            { closeConnection := ({ conn with context }.checked ok).context.request.close }) }
      else { { conn with context }.checked ok with handler := .polling } := rfl
  obtain ⟨hcontext, hinput, hreads⟩ := checked_frame { conn with context } ok
  rw [hparsed]
  dsimp only at honMessage hcontext hinput hreads
  rw [← hview] at honMessage
  generalize ({ conn with context }.checked ok) = after at *
  subst hcontext
  have hshows' : Shows pool after.input rest := by
    rw [hinput]
    exact hshows
  have hreceived : after.reads.foldlM (receive httpCallback) {} = _ :=
    (congrArg (List.foldlM _ _) hreads).trans (hresult.trans honMessage)
  cases hgot : after.context.gotAll with
  | false =>
    rw [hgot] at hreceived
    have hreading := hparses.reading_or.resolve_left (by simp [hgot])
    exact ⟨⟨hreading, rest, hshows', hreceived⟩, congrArg (fun i => [i]) hinput⟩
  | true =>
    rw [hgot] at hreceived
    exact ⟨⟨rest, hshows', hreceived⟩, congrArg (fun i => [i]) hinput⟩

/-- What is retrieved is dropped from what a buffer shows. -/
theorem acts_retrieve {i : ℕ} {bytes : Bytes} {len : Option ℕ} (hpool : PoolServed pool)
    (h : Shows pool i bytes) (hretrieve : PooledServer.retrieve pool conn i len = some pool') :
    PoolServed pool' ∧ Shows pool' i (bytes.drop (len.getD 0)) ∧
      ∀ j bytes, j ≠ i → Shows pool j bytes → Shows pool' j bytes := by
  cases len with
  | none =>
    cases hretrieve
    exact ⟨hpool, h, fun _ _ _ h => h⟩
  | some len =>
    refine ⟨hpool.call rfl hretrieve, h.retrieve hretrieve, fun j bytes hne hother => ?_⟩
    refine hother.next (PooledServer.next_of_call hretrieve) ?_
    rintro _ ⟨⟩
    exact hne.symm

/-- An iteration of `parseRequest`. -/
theorem acts_parse (hpool : PoolServed pool) (hmeans : conn.Means httpCallback pool)
    (hact : PooledServer.act httpCallback pool conn (.parse c) = some (pool', conn')) :
    conn.Acts httpCallback pool pool' conn' := by
  rw [PooledServer.act] at hact
  split at hact
  · next hhandler =>
    have hslots : conn.slots = [conn.input] := by rw [slots, hhandler]
    rw [Means, hhandler] at hmeans
    obtain ⟨hreading, input, hinput, hresult⟩ := hmeans
    obtain ⟨buf, hbuf, hact⟩ := Option.bind_eq_some_iff.mp hact
    obtain ⟨it, hit, hact⟩ := Option.bind_eq_some_iff.mp hact
    obtain ⟨pool₁, hretrieve, hact⟩ := Option.bind_eq_some_iff.mp hact
    obtain ⟨it', hit', hfollows⟩ := hreading.iterate ⟨buf, pool.memory⟩
    rw [hit] at hit'
    cases hit'
    rw [hinput.readable hpool hbuf] at hfollows
    obtain ⟨hpool₁, hrest, hother⟩ := acts_retrieve hpool hinput hretrieve
    have hframe : ∀ j bytes, j ∉ conn.slots → Shows pool j bytes → Shows pool₁ j bytes := by
      intro j bytes hj
      refine hother j bytes fun heq => hj ?_
      rw [hslots, heq]
      exact List.mem_cons_self
    cases hreturns : it.returns with
    | none =>
      rw [hreturns] at hact
      cases hact
      obtain ⟨hreading', hparses⟩ := hfollows.goesOn hreturns
      have hslots' : { conn with context := it.context }.slots = [conn.input] := by
        rw [slots, hhandler]
      refine ⟨hpool₁, ?_, hframe, fun j hj => .inl ?_, hslots' ▸ List.nodup_singleton _⟩
      · rw [Means, hhandler]
        refine ⟨hreading', it.rest input, hrest, ?_⟩
        obtain ⟨p, -, hp⟩ := HttpContext.exists_parses_of_reading hreading'
          (Nat.lt_succ_self (it.rest input).length)
        have hbefore : onMessage httpCallback (conn.view input) = _ :=
          onMessage_of_parses (hparses p hp)
        have hafter : onMessage httpCallback
            ({ conn with context := it.context }.view (it.rest input)) = _ :=
          onMessage_of_parses hp
        exact hresult.trans (hbefore.trans hafter.symm)
      · rw [hslots, ← hslots']
        exact hj
    | some ok =>
      rw [hreturns] at hact
      cases hact
      obtain ⟨hmeans, hslots'⟩ := means_parsed hrest (hfollows.returns ok hreturns) hresult
      exact ⟨hpool₁, hmeans, hframe, fun j hj => .inl (by rwa [hslots, ← hslots']),
        hslots' ▸ List.nodup_singleton _⟩
  · cases hact

/-- The buffer for a response. -/
theorem acts_makeBuffer {recycled : Region} (hpool : PoolServed pool)
    (hmeans : conn.Means httpCallback pool)
    (hserved : BufferPool.ServedRight .default pool
      (PooledServer.newBuffer conn.thread memoryLeft recycled))
    (hact : PooledServer.act httpCallback pool conn (.makeBuffer c memoryLeft recycled) =
      some (pool', conn')) : conn.Acts httpCallback pool pool' conn' := by
  rw [PooledServer.act] at hact
  split at hact
  · next response hhandler =>
    obtain ⟨pool₁, hcall, hact⟩ := Option.bind_eq_some_iff.mp hact
    cases hact
    have hslots : conn.slots = [conn.input] := by rw [slots, hhandler]
    rw [Means, hhandler] at hmeans
    obtain ⟨input, hinput, hresult⟩ := hmeans
    have hstep := PooledServer.next_of_call hcall
    refine ⟨hpool.next hserved hstep, ?_, frame_of_call hcall nofun, ?_, ?_⟩
    · refine ⟨input, [], hinput.next hstep nofun, hpool.newBuffer hcall, ?_, hresult⟩
      rw [List.nil_append, response.flatten_strings]
    · intro j hj
      rcases List.mem_cons.mp hj with rfl | hj
      · exact .inl (hslots ▸ List.mem_cons_self)
      · exact .inr (List.mem_singleton.mp hj).ge
    · exact List.nodup_cons.mpr ⟨fun hmem => hinput.lt.ne (List.mem_singleton.mp hmem),
        List.nodup_singleton _⟩
  · cases hact

/-- A call of `writeBytes` in `appendToBuffer`. -/
theorem acts_append (hpool : PoolServed pool) (hmeans : conn.Means httpCallback pool)
    (hnodup : conn.slots.Nodup) (hserved : ∀ turn ∈ conn.appendTurn memoryLeft,
      BufferPool.ServedRight .default pool turn)
    (hact : PooledServer.act httpCallback pool conn (.append c memoryLeft) =
      some (pool', conn')) : conn.Acts httpCallback pool pool' conn' := by
  rw [PooledServer.act] at hact
  split at hact
  · next i response string strings hhandler =>
    have hturn : conn.appendTurn memoryLeft =
        some ⟨conn.thread, memoryLeft, .grow i (.writeBytes string 0 string.length)⟩ := by
      rw [appendTurn, hhandler]
    rw [hturn] at hact hserved
    obtain ⟨_, ⟨⟩, hact⟩ := Option.bind_eq_some_iff.mp hact
    obtain ⟨pool₁, hcall, hact⟩ := Option.bind_eq_some_iff.mp hact
    cases hact
    have hslots : conn.slots = [conn.input, i] := by rw [slots, hhandler]
    rw [hslots] at hnodup
    have hne : i ≠ conn.input := fun heq =>
      (List.nodup_cons.mp hnodup).1 (heq ▸ List.mem_cons_self)
    rw [Means, hhandler] at hmeans
    obtain ⟨input, bytes, hinput, hbytes, hstrings, hresult⟩ := hmeans
    have hstep := PooledServer.next_of_call hcall
    refine ⟨hpool.next (hserved _ rfl) hstep, ?_, frame_of_call hcall ?_,
      fun j hj => .inl (hslots ▸ hj), hnodup⟩
    · refine ⟨input, bytes ++ string, hinput.next hstep ?_, hbytes.writeBytes hcall, ?_, hresult⟩
      · rintro _ ⟨⟩
        exact hne
      · rw [List.append_assoc, ← List.flatten_cons]
        exact hstrings
    · rintro _ ⟨⟩
      rw [hslots]
      exact List.mem_cons_of_mem _ List.mem_cons_self
  · cases hact

/-- `send` passes on what has been written to the buffer. -/
theorem acts_send (hpool : PoolServed pool) (hmeans : conn.Means httpCallback pool)
    (hnodup : conn.slots.Nodup)
    (hact : PooledServer.act httpCallback pool conn (.send c) = some (pool', conn')) :
    conn.Acts httpCallback pool pool' conn' := by
  rw [PooledServer.act] at hact
  split at hact
  · next i response hhandler =>
    obtain ⟨buf, hbuf, hact⟩ := Option.bind_eq_some_iff.mp hact
    obtain ⟨pool₁, hretrieve, hact⟩ := Option.bind_eq_some_iff.mp hact
    have hslots : conn.slots = [conn.input, i] := by rw [slots, hhandler]
    rw [Means, hhandler] at hmeans
    obtain ⟨input, bytes, hinput, hbytes, hstrings, hresult⟩ := hmeans
    rw [List.flatten_nil, List.append_nil] at hstrings
    rw [hbytes.readable hpool hbuf, hstrings] at hact
    rw [hslots] at hnodup
    obtain ⟨hpool₁, hrest, hother⟩ := acts_retrieve hpool hbytes hretrieve
    have hne : conn.input ≠ i := fun heq =>
      (List.nodup_cons.mp hnodup).1 (heq ▸ List.mem_cons_self)
    have hframe : ∀ j bytes, j ∉ conn.slots → Shows pool j bytes → Shows pool₁ j bytes := by
      intro j bytes hj
      refine hother j bytes fun heq => hj ?_
      rw [hslots, heq]
      exact List.mem_cons_of_mem _ List.mem_cons_self
    have hview := conn.view_send response.appendToBuffer input
    rw [HttpConnection.answer, ← hview] at hresult
    have hinput' := hother _ _ hne hinput
    obtain ⟨hcontext, hplace, hreads⟩ := conn.send_frame response.appendToBuffer
    generalize conn.send response.appendToBuffer = after at *
    rw [received, ← hreads, ← hcontext] at hresult
    rw [← hplace] at hslots hnodup hinput'
    have hacts : ∀ {after' : PooledConnection}, after'.input = after.input →
        after'.received httpCallback =
          some { after'.view input with context := after'.context.reset } →
        conn.Acts httpCallback pool pool₁ { after' with handler := .leaving i } := by
      intro after' hplace' hresult'
      refine ⟨hpool₁, ⟨input, _, ?_, hrest, hresult'⟩, hframe, fun j hj => .inl ?_, ?_⟩
      · rw [hplace']
        exact hinput'
      · rw [hslots, ← hplace']
        exact hj
      · rw [← hplace'] at hnodup
        exact hnodup
    cases hclose : response.closeConnection with
    | false =>
      rw [hclose] at hact hresult
      cases hact
      exact hacts rfl hresult
    | true =>
      rw [hclose] at hact hresult
      cases hact
      exact hacts rfl hresult
  · cases hact

/-- The end of `onRequest`. -/
theorem acts_leave (hpool : PoolServed pool) (hmeans : conn.Means httpCallback pool)
    (hnodup : conn.slots.Nodup)
    (hact : PooledServer.act httpCallback pool conn (.leave c) = some (pool', conn')) :
    conn.Acts httpCallback pool pool' conn' := by
  rw [PooledServer.act] at hact
  split at hact
  · next i hhandler =>
    obtain ⟨pool₁, hcall, hact⟩ := Option.bind_eq_some_iff.mp hact
    cases hact
    have hslots : conn.slots = [conn.input, i] := by rw [slots, hhandler]
    rw [hslots] at hnodup
    rw [Means, hhandler] at hmeans
    obtain ⟨input, bytes, hinput, hbytes, hresult⟩ := hmeans
    refine ⟨hpool.call rfl hcall, ⟨.inl rfl, input, ?_, hresult⟩, frame_of_call hcall ?_, ?_,
      List.nodup_singleton _⟩
    · refine hinput.next (PooledServer.next_of_call hcall) ?_
      rintro _ ⟨⟩ heq
      exact (List.nodup_cons.mp hnodup).1 (heq ▸ List.mem_cons_self)
    · rintro _ ⟨⟩
      rw [hslots]
      exact List.mem_cons_of_mem _ List.mem_cons_self
    · intro j hj
      rw [hslots, List.mem_singleton.mp hj]
      exact .inl List.mem_cons_self
  · cases hact

/-- The destruction of a connection. -/
theorem acts_destroy (hpool : PoolServed pool) (hmeans : conn.Means httpCallback pool)
    (hact : PooledServer.act httpCallback pool conn (.destroy c) = some (pool', conn')) :
    conn.Acts httpCallback pool pool' conn' := by
  have hacts : ∀ {pool₁ : BufferPool} {input : Bytes}, conn.slots = [conn.input] →
      conn.received httpCallback = some (conn.view input) →
      PooledServer.call pool ⟨conn.thread, true, .deallocate conn.input⟩ = some pool₁ →
      conn.Acts httpCallback pool pool₁ { conn with handler := .destroyed } := by
    intro pool₁ input hslots hresult hcall
    refine ⟨hpool.call rfl hcall, ⟨input, hresult⟩, frame_of_call hcall ?_, nofun, List.nodup_nil⟩
    rintro _ ⟨⟩
    exact hslots ▸ List.mem_cons_self
  rw [PooledServer.act] at hact
  split at hact
  · next hhandler =>
    obtain ⟨pool₁, hcall, hact⟩ := Option.bind_eq_some_iff.mp hact
    cases hact
    rw [Means, hhandler] at hmeans
    obtain ⟨-, input, -, hresult⟩ := hmeans
    exact hacts (by rw [slots, hhandler]) hresult hcall
  · next hhandler =>
    obtain ⟨pool₁, hcall, hact⟩ := Option.bind_eq_some_iff.mp hact
    cases hact
    rw [Means, hhandler] at hmeans
    obtain ⟨input, -, hresult⟩ := hmeans
    exact hacts (by rw [slots, hhandler]) hresult hcall
  · cases hact

end PooledConnection

end DuoDuo.Http
