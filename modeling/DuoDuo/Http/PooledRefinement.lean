import DuoDuo.Http.PooledHandlers

/-!
# Connections over the pool are connections over lists

The connections of a server have buffers of their own, so what one of them does leaves the
others where they are. In every run of the threads in which the arena serves every request
with the right pointer, each connection that waits for its socket, or is closed, is where the
connection over lists is that has received the same reads.
-/

namespace DuoDuo.Http

open Library Library.Machine Buffer Buffer.BufferPool

variable {httpCallback : HttpRequest → HttpResponse → HttpResponse}

namespace PooledServer

variable {s s' : PooledServer} {a : Action} {c : ℕ} {conn : PooledConnection}

/-- An action of a connection that is served right. -/
theorem acts (hpool : PoolServed s.pool) (hconn : s.connections[c]? = some conn)
    (hmeans : conn.Means httpCallback s.pool) (hnodup : conn.slots.Nodup)
    (ha : a.connection = some c) (hserved : ServedRight s a) {pool' : BufferPool}
    {conn' : PooledConnection} (hact : act httpCallback s.pool conn a = some (pool', conn')) :
    conn.Acts httpCallback s.pool pool' conn' := by
  cases a with
  | accept | other => cases ha
  | read d memoryLeft received =>
    cases ha
    exact PooledConnection.acts_read hpool hmeans (hserved conn hconn) hact
  | parse d => exact PooledConnection.acts_parse hpool hmeans hact
  | makeBuffer d memoryLeft recycled =>
    cases ha
    exact PooledConnection.acts_makeBuffer hpool hmeans (hserved conn hconn) hact
  | append d memoryLeft =>
    cases ha
    exact PooledConnection.acts_append hpool hmeans hnodup (hserved conn hconn) hact
  | send d => exact PooledConnection.acts_send hpool hmeans hnodup hact
  | leave d => exact PooledConnection.acts_leave hpool hmeans hnodup hact
  | destroy d => exact PooledConnection.acts_destroy hpool hmeans hact

/-- The invariant: the connections have buffers of their own, and each is on the way of the
connection over lists. -/
structure Inv (httpCallback : HttpRequest → HttpResponse → HttpResponse) (s : PooledServer) :
    Prop where
  served : PoolServed s.pool
  means : ∀ conn ∈ s.connections, conn.Means httpCallback s.pool
  nodup : ∀ conn ∈ s.connections, conn.slots.Nodup
  apart : ∀ (c d : ℕ) conn conn', c ≠ d → s.connections[c]? = some conn →
    s.connections[d]? = some conn' → ∀ j ∈ conn.slots, j ∉ conn'.slots

/-- The connections keep their buffers when one of them acts. -/
theorem Inv.act (h : Inv httpCallback s) (hconn : s.connections[c]? = some conn)
    {pool' : BufferPool} {conn' : PooledConnection}
    (hacts : conn.Acts httpCallback s.pool pool' conn') :
    Inv httpCallback ⟨pool', s.connections.set c conn'⟩ := by
  have hc := (List.getElem?_eq_some_iff.mp hconn).1
  -- the buffers of the connection that acts, before and after, are not those of another
  have hother : ∀ d conn₁, d ≠ c → s.connections[d]? = some conn₁ → ∀ j ∈ conn₁.slots,
      j ∉ conn.slots ∧ j ∉ conn'.slots := by
    intro d conn₁ hne hconn₁ j hj
    have hold := h.apart d c conn₁ conn hne hconn₁ hconn j hj
    refine ⟨hold, fun hj' => ?_⟩
    have hlive := (h.means conn₁ (List.mem_of_getElem? hconn₁)).lt j hj
    rcases hacts.slots j hj' with hj' | hj'
    · exact hold hj'
    · omega
  refine ⟨hacts.served, ?_, ?_, ?_⟩
  · intro conn₁ hmem
    obtain ⟨d, hd⟩ := List.getElem?_of_mem hmem
    by_cases hne : d = c
    · subst hne
      rw [List.getElem?_set_self hc] at hd
      cases hd
      exact hacts.means
    · rw [List.getElem?_set_ne (Ne.symm hne)] at hd
      exact (h.means conn₁ (List.mem_of_getElem? hd)).frame fun j hj bytes =>
        hacts.frame j bytes (hother d conn₁ hne hd j hj).1
  · intro conn₁ hmem
    rcases List.mem_or_eq_of_mem_set hmem with hmem | rfl
    · exact h.nodup conn₁ hmem
    · exact hacts.nodup
  · intro d e conn₁ conn₂ hne hd he j hj
    by_cases hdc : d = c
    · subst hdc
      rw [List.getElem?_set_self hc] at hd
      cases hd
      rw [List.getElem?_set_ne hne] at he
      exact fun hj' => (hother e conn₂ (Ne.symm hne) he j hj').2 hj
    · rw [List.getElem?_set_ne (Ne.symm hdc)] at hd
      by_cases hec : e = c
      · subst hec
        rw [List.getElem?_set_self hc] at he
        cases he
        exact (hother d conn₁ hdc hd j hj).2
      · rw [List.getElem?_set_ne (Ne.symm hec)] at he
        exact h.apart d e conn₁ conn₂ hne hd he j hj

/-- A new connection has a buffer of its own. -/
theorem Inv.accept (h : Inv httpCallback s) {thread : ℕ} {memoryLeft : Bool} {recycled : Region}
    (hserved : ServedRight s (.accept thread memoryLeft recycled)) {pool' : BufferPool}
    (hcall : call s.pool (newBuffer thread memoryLeft recycled) = some pool') :
    Inv httpCallback
      ⟨pool', s.connections ++ [{ thread, input := s.pool.buffers.length }]⟩ := by
  have hstep := next_of_call hcall
  have hnew : ∀ conn ∈ s.connections, s.pool.buffers.length ∉ conn.slots := fun conn hmem hj =>
    lt_irrefl _ ((h.means conn hmem).lt _ hj)
  refine ⟨h.served.next hserved hstep, ?_, ?_, ?_⟩
  · intro conn hmem
    rcases List.mem_append.mp hmem with hmem | hmem
    · exact (h.means conn hmem).frame fun j _ bytes hj => hj.next hstep nofun
    · rw [List.mem_singleton.mp hmem]
      exact ⟨.inl rfl, [], h.served.newBuffer hcall, rfl⟩
  · intro conn hmem
    rcases List.mem_append.mp hmem with hmem | hmem
    · exact h.nodup conn hmem
    · rw [List.mem_singleton.mp hmem]
      exact List.nodup_singleton _
  · -- a place in the list is an old one, or the last one
    have hplace : ∀ {c : ℕ} {conn : PooledConnection},
        (s.connections ++ [{ thread, input := s.pool.buffers.length }])[c]? = some conn →
        s.connections[c]? = some conn ∨ c = s.connections.length ∧
          conn = { thread, input := s.pool.buffers.length } := by
      intro c conn hc
      rcases Nat.lt_or_ge c s.connections.length with hlt | hge
      · rw [List.getElem?_append_left hlt] at hc
        exact .inl hc
      · rw [List.getElem?_append_right hge, List.getElem?_singleton] at hc
        split_ifs at hc with hzero
        exact .inr ⟨by omega, (Option.some.inj hc).symm⟩
    intro c d conn conn' hne hc hd j hj hj'
    rcases hplace hc with hc | ⟨rfl, rfl⟩
    · rcases hplace hd with hd | ⟨rfl, rfl⟩
      · exact h.apart c d conn conn' hne hc hd j hj hj'
      · rw [List.mem_singleton.mp hj'] at hj
        exact hnew conn (List.mem_of_getElem? hc) hj
    · rcases hplace hd with hd | ⟨rfl, -⟩
      · rw [List.mem_singleton.mp hj] at hj'
        exact hnew conn' (List.mem_of_getElem? hd) hj'
      · exact hne rfl

/-- A call for another buffer concerns no connection. -/
theorem Inv.other (h : Inv httpCallback s) {turn : Turn} (hserved : ServedRight s (.other turn))
    (hslot : ∀ conn ∈ s.connections, ∀ i ∈ slot turn.call, i ∉ conn.slots)
    {r : Except Unit Unit} {pool' : BufferPool}
    (hstep : s.pool.next PoolConfig.default.sizeClass turn = some (r, pool')) :
    Inv httpCallback { s with pool := pool' } := by
  refine ⟨h.served.next hserved hstep, fun conn hmem => ?_, h.nodup, h.apart⟩
  refine (h.means conn hmem).frame fun j hj bytes hshows => hshows.next hstep fun i hi heq => ?_
  exact hslot conn hmem i hi (heq ▸ hj)

/-- A step that is served right keeps the invariant. -/
theorem Inv.next (h : Inv httpCallback s) (hserved : ServedRight s a)
    (hstep : s.next httpCallback a = some s') : Inv httpCallback s' := by
  have hacts : ∀ {a : Action}, ServedRight s a → (a.connection.bind fun c =>
      s.connections[c]?.bind fun conn => (PooledServer.act httpCallback s.pool conn a).bind fun p =>
        some (⟨p.1, s.connections.set c p.2⟩ : PooledServer)) = some s' → Inv httpCallback s' := by
    intro a hserved hstep
    obtain ⟨c, hc, hstep⟩ := Option.bind_eq_some_iff.mp hstep
    obtain ⟨conn, hconn, hstep⟩ := Option.bind_eq_some_iff.mp hstep
    obtain ⟨⟨pool', conn'⟩, hact, hstep⟩ := Option.bind_eq_some_iff.mp hstep
    cases hstep
    have hmem := List.mem_of_getElem? hconn
    exact h.act hconn (acts h.served hconn (h.means conn hmem) (h.nodup conn hmem) hc hserved hact)
  cases a with
  | accept thread memoryLeft recycled =>
    obtain ⟨pool', hcall, hstep⟩ := Option.bind_eq_some_iff.mp hstep
    cases hstep
    exact h.accept hserved hcall
  | other turn =>
    rw [PooledServer.next] at hstep
    split_ifs at hstep with hslot
    obtain ⟨⟨r, pool'⟩, hnext, rfl⟩ := Option.map_eq_some_iff.mp hstep
    exact h.other hserved hslot hnext
  | read | parse | makeBuffer | append | send | leave | destroy => exact hacts hserved hstep

/-- A connection that waits for its socket, or has been closed, is where the connection over
lists is that has received the same reads: it has parsed as far, has the same bytes left in its
buffer, has handled the same requests and has sent the same bytes. So is one that has been
destroyed, but for the buffer. -/
def Refines (httpCallback : HttpRequest → HttpResponse → HttpResponse) (s : PooledServer) : Prop :=
  ∀ conn ∈ s.connections,
    (conn.handler = .polling ∨ conn.handler = .closed →
      ∃ buf, (s.pool.buffers[conn.input]?).join = some buf ∧
        conn.reads.foldlM (receive httpCallback) {} = some {
          context := conn.context
          inputBuffer := Filled.readable ⟨buf, s.pool.memory⟩
          connected := conn.connected
          sent := conn.sent
          requests := conn.requests }) ∧
    (conn.handler = .destroyed →
      ∃ inputBuffer, conn.reads.foldlM (receive httpCallback) {} = some {
        context := conn.context
        inputBuffer := inputBuffer
        connected := conn.connected
        sent := conn.sent
        requests := conn.requests })

theorem Inv.refines (h : Inv httpCallback s) : Refines httpCallback s := by
  intro conn hmem
  have hmeans := h.means conn hmem
  have hread : ∀ {input : Bytes}, Shows s.pool conn.input input →
      conn.received httpCallback = some (conn.view input) →
      ∃ buf, (s.pool.buffers[conn.input]?).join = some buf ∧ conn.received httpCallback =
        some (conn.view (Filled.readable ⟨buf, s.pool.memory⟩)) := by
    intro input hinput hresult
    have hshown := hinput
    obtain ⟨buf, _, hbuf, -⟩ := hshown
    refine ⟨buf, hbuf, ?_⟩
    rwa [hinput.readable h.served hbuf]
  constructor
  · rintro (hpolling | hclosed)
    · rw [PooledConnection.Means, hpolling] at hmeans
      obtain ⟨-, input, hinput, hresult⟩ := hmeans
      exact hread hinput hresult
    · rw [PooledConnection.Means, hclosed] at hmeans
      obtain ⟨input, hinput, hresult⟩ := hmeans
      exact hread hinput hresult
  · intro hdestroyed
    rwa [PooledConnection.Means, hdestroyed] at hmeans

/-- The server of one thread before its first connection, over a memory of zeros. -/
def beforeOneRequest : PooledServer :=
  ⟨.init PoolConfig.default.sizeClass 1 fun _ => 0, []⟩

/-- A connection receives a request, in two reads, answers that there is no such page, reads the
end of the stream and is destroyed. -/
def oneRequest : List Action :=
  [.accept 0 true (.initUnpool 0 0), .read 0 true (.ok (ascii "GET / HT")), .parse 0,
    .read 0 true (.ok (ascii "TP/1.1\r\n\r\n")), .parse 0, .parse 0,
    .makeBuffer 0 true (.initUnpool 0 0)] ++
  List.replicate 6 (.append 0 true) ++
  [.send 0, .leave 0, .read 0 true (.ok []), .destroy 0]

/-- The server after `oneRequest`. -/
def afterOneRequest : PooledServer :=
  (oneRequest.foldlM (next defaultHttpCallback) beforeOneRequest).getD beforeOneRequest

theorem afterOneRequest_eq :
    oneRequest.foldlM (next defaultHttpCallback) beforeOneRequest = some afterOneRequest := by
  have hsome : (oneRequest.foldlM (next defaultHttpCallback) beforeOneRequest).isSome = true := by
    decide +kernel
  rw [afterOneRequest, Option.getD_of_ne_none (Option.isSome_iff_ne_none.mp hsome)]

end PooledServer

end DuoDuo.Http
