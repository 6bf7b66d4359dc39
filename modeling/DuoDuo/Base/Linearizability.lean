import DuoDuo.Base.MpscQueue

/-!
# The lock-free queue is a queue with gaps

The nodes behind the tail stand in a line, in the order of their exchanges. A
slot of the line is linked from the node before it, or it has an owner, the
producer that is about to store the link. Read as entries that are announced
and published, the line is a `GapQueue`, and every atomic step of the code is
one of its steps or none. Order, conservation and the safety of `delete` follow.
-/

namespace DuoDuo.Base

open Library

/-- A place in the line behind the tail. -/
structure Slot (P T : Type*) where
  /-- The node in this place. -/
  node : NodePtr
  /-- The item of its `enqueue`. -/
  item : T
  /-- The producer that has still to link it. -/
  owner : Option P

namespace Slot

variable {P T : Type*}

/-- The entry of the queue with gaps. -/
def entry (s : Slot P T) : T × Option P := (s.item, s.owner)

/-- The slot after the producer `p` has stored its link. -/
def publish [DecidableEq P] (p : P) (s : Slot P T) : Slot P T :=
  if s.owner = some p then { s with owner := none } else s

variable [DecidableEq P] {p : P}

@[simp] theorem publish_node (s : Slot P T) : (s.publish p).node = s.node := by
  unfold publish
  split <;> rfl

@[simp] theorem publish_item (s : Slot P T) : (s.publish p).item = s.item := by
  unfold publish
  split <;> rfl

theorem entry_publish (s : Slot P T) :
    (s.publish p).entry = GapQueue.publishEntry p s.entry := by
  unfold publish GapQueue.publishEntry
  by_cases h : s.owner = some p <;> simp [entry, h]

theorem publish_of_ne {s : Slot P T} (h : s.owner ≠ some p) : s.publish p = s := if_neg h

theorem publish_of_owner {s : Slot P T} (h : s.owner = some p) :
    s.publish p = { s with owner := none } := if_pos h

end Slot

/-- The item of an `enqueue` whose exchange is still to come. -/
def EnqueuePoint.pending {T : Type*} : EnqueuePoint T → List T
  | .created _ input => [input]
  | _ => []

namespace MpscQueue

variable {P T : Type*}

/-- The nodes of a line. -/
def lineNodes (line : List (Slot P T)) : List NodePtr := line.map Slot.node

@[simp] theorem lineNodes_nil : lineNodes ([] : List (Slot P T)) = [] := rfl

@[simp] theorem lineNodes_cons (s : Slot P T) (line : List (Slot P T)) :
    lineNodes (s :: line) = s.node :: lineNodes line := rfl

@[simp] theorem lineNodes_append (line line' : List (Slot P T)) :
    lineNodes (line ++ line') = lineNodes line ++ lineNodes line' := List.map_append

@[simp] theorem lineNodes_publish [DecidableEq P] (p : P) (line : List (Slot P T)) :
    lineNodes (line.map (Slot.publish p)) = lineNodes line := by
  simp [lineNodes, Function.comp_def]

/-- The line from the node `a` to the head of the queue. -/
def Linked (q : MpscQueue P T) : NodePtr → List (Slot P T) → Prop
  | a, [] => q.head = a ∧ (q.node a).next = none
  | a, s :: line =>
    (match s.owner with
      | none => (q.node a).next = some s.node
      | some p => (q.node a).next = none ∧ q.producers p = .exchanged s.node a) ∧
    Linked q s.node line

/-- A line depends only on the head, the links of its nodes and the producers
that own its slots. -/
theorem Linked.congr {q q' : MpscQueue P T} {a : NodePtr} {line : List (Slot P T)}
    (h : q.Linked a line) (hhead : q'.head = q.head)
    (hnext : ∀ b ∈ a :: lineNodes line, (q'.node b).next = (q.node b).next)
    (howner : ∀ s ∈ line, ∀ p, s.owner = some p → q'.producers p = q.producers p) :
    q'.Linked a line := by
  induction line generalizing a with
  | nil =>
    obtain ⟨hlast, hnone⟩ := h
    exact ⟨hhead.trans hlast, by rw [hnext a (by simp), hnone]⟩
  | cons s line ih =>
    obtain ⟨hlink, hrest⟩ := h
    refine ⟨?_, ih hrest (fun b hb => hnext b (by simp [lineNodes_cons] at hb ⊢; tauto))
      fun t ht => howner t (List.mem_cons_of_mem _ ht)⟩
    cases hs : s.owner with
    | none =>
      simp only [hs] at hlink ⊢
      rw [hnext a (by simp), hlink]
    | some p =>
      simp only [hs] at hlink ⊢
      rw [hnext a (by simp), howner s (by simp) p hs]
      exact hlink

/-- The head is the last node of the line. -/
theorem Linked.head_mem {q : MpscQueue P T} {a : NodePtr} {line : List (Slot P T)}
    (h : q.Linked a line) : q.head ∈ a :: lineNodes line := by
  induction line generalizing a with
  | nil => simp [h.1]
  | cons s line ih => exact List.mem_cons_of_mem _ (ih h.2)

/-- The owner of a slot is about to store into a node of the line. -/
theorem Linked.owner {q : MpscQueue P T} {a : NodePtr} {line : List (Slot P T)}
    (h : q.Linked a line) {s : Slot P T} (hs : s ∈ line) {p : P} (hp : s.owner = some p) :
    ∃ b ∈ a :: lineNodes line, (q.node b).next = none ∧ q.producers p = .exchanged s.node b := by
  induction line generalizing a with
  | nil => cases hs
  | cons t line ih =>
    obtain ⟨hlink, hrest⟩ := h
    rcases List.mem_cons.mp hs with rfl | hs
    · simp only [hp] at hlink
      exact ⟨a, by simp, hlink⟩
    · obtain ⟨b, hb, hfound⟩ := ih hrest hs
      exact ⟨b, List.mem_cons_of_mem _ hb, hfound⟩

/-- A null link at the start of a line means that the line is empty or that its
first slot has an owner. -/
theorem Linked.next_none {q : MpscQueue P T} {a : NodePtr} {line : List (Slot P T)}
    (h : q.Linked a line) (hnext : (q.node a).next = none) :
    line = [] ∨ ∃ s rest p, line = s :: rest ∧ s.owner = some p := by
  cases line with
  | nil => exact .inl rfl
  | cons s rest =>
    right
    cases hs : s.owner with
    | none =>
      have hlink := h.1
      simp only [hs, hnext] at hlink
      cases hlink
    | some p => exact ⟨s, rest, p, rfl, hs⟩

/-- A link at the start of a line leads to its first slot, which has no owner. -/
theorem Linked.next_some {q : MpscQueue P T} {a b : NodePtr} {line : List (Slot P T)}
    (h : q.Linked a line) (hnext : (q.node a).next = some b) :
    ∃ s rest, line = s :: rest ∧ s.node = b ∧ s.owner = none := by
  cases line with
  | nil =>
    have hnone := h.2
    rw [hnext] at hnone
    cases hnone
  | cons s rest =>
    cases hs : s.owner with
    | none =>
      have hlink := h.1
      simp only [hs, hnext, Option.some.injEq] at hlink
      exact ⟨s, rest, rfl, hlink.symm, hs⟩
    | some p =>
      have hlink := h.1
      simp only [hs, hnext] at hlink
      cases hlink.1

/-- After an exchange the new node stands at the end of the line, owned by its producer. -/
theorem Linked.append {q q' : MpscQueue P T} {a b : NodePtr} {line : List (Slot P T)} {p : P}
    {x : T} (h : q.Linked a line) (hhead : q'.head = b) (hnew : (q'.node b).next = none)
    (hnext : ∀ c ∈ a :: lineNodes line, (q'.node c).next = (q.node c).next)
    (howner : ∀ s ∈ line, ∀ r, s.owner = some r → q'.producers r = q.producers r)
    (hp : q'.producers p = .exchanged b q.head) :
    q'.Linked a (line ++ [⟨b, x, some p⟩]) := by
  induction line generalizing a with
  | nil =>
    obtain ⟨rfl, hnone⟩ := h
    exact ⟨⟨by rw [hnext _ (by simp), hnone], hp⟩, hhead, hnew⟩
  | cons s line ih =>
    obtain ⟨hlink, hrest⟩ := h
    refine ⟨?_, ih hrest (fun c hc => hnext c (by simp [lineNodes_cons] at hc ⊢; tauto))
      fun t ht => howner t (List.mem_cons_of_mem _ ht)⟩
    cases hs : s.owner with
    | none =>
      simp only [hs] at hlink ⊢
      rw [hnext a (by simp), hlink]
    | some r =>
      simp only [hs] at hlink ⊢
      rw [hnext a (by simp), howner s (by simp) r hs]
      exact hlink

/-- Storing a link publishes the slot of the producer that stores it. -/
theorem Linked.publish [DecidableEq P] {q q' : MpscQueue P T} {a b c : NodePtr}
    {line : List (Slot P T)} {p : P} (h : q.Linked a line) (hnodup : (a :: lineNodes line).Nodup)
    (hp : q.producers p = .exchanged c b) (hmem : ∃ s ∈ line, s.owner = some p)
    (hhead : q'.head = q.head) (hlinked : (q'.node b).next = some c)
    (hnext : ∀ d, d ≠ b → (q'.node d).next = (q.node d).next)
    (howner : ∀ r, r ≠ p → q'.producers r = q.producers r) :
    q'.Linked a (line.map (Slot.publish p)) := by
  induction line generalizing a with
  | nil => simp at hmem
  | cons s line ih =>
    obtain ⟨hlink, hrest⟩ := h
    obtain ⟨ha, htail⟩ := List.nodup_cons.mp hnodup
    by_cases hs : s.owner = some p
    · -- the slot of `p`: no later slot is owned by `p`, as its link would start elsewhere
      simp only [hs, hp, EnqueuePoint.exchanged.injEq] at hlink
      obtain ⟨-, rfl, rfl⟩ := hlink
      have hothers : ∀ t ∈ line, t.owner ≠ some p := by
        intro t ht htp
        obtain ⟨d, hd, -, hprod⟩ := hrest.owner ht htp
        rw [hp, EnqueuePoint.exchanged.injEq] at hprod
        exact ha (hprod.2 ▸ hd)
      have hmap : line.map (Slot.publish p) = line := by
        rw [List.map_congr_left fun t ht => Slot.publish_of_ne (hothers t ht), List.map_id']
      rw [List.map_cons, Slot.publish_of_owner hs, hmap]
      refine ⟨hlinked, hrest.congr hhead (fun d hd => hnext d fun hdb => ha (hdb ▸ hd)) ?_⟩
      exact fun t ht r hr => howner r fun hrp => hothers t ht (hrp ▸ hr)
    · have hmem' : ∃ t ∈ line, t.owner = some p := by
        obtain ⟨t, ht, htp⟩ := hmem
        rcases List.mem_cons.mp ht with rfl | ht
        · exact absurd htp hs
        · exact ⟨t, ht, htp⟩
      have hab : a ≠ b := by
        rintro rfl
        obtain ⟨t, ht, htp⟩ := hmem'
        obtain ⟨d, hd, -, hprod⟩ := hrest.owner ht htp
        rw [hp, EnqueuePoint.exchanged.injEq] at hprod
        exact ha (hprod.2 ▸ hd)
      rw [List.map_cons, Slot.publish_of_ne hs]
      refine ⟨?_, ih hrest htail hmem'⟩
      cases hr : s.owner with
      | none =>
        simp only [hr] at hlink ⊢
        rw [hnext a hab, hlink]
      | some r =>
        simp only [hr] at hlink ⊢
        rw [hnext a hab, howner r fun hrp => hs (hrp ▸ hr)]
        exact hlink

/-- The slots whose items the consumer has not yet moved. -/
def waiting : ConsumerPoint T → List (Slot P T) → List (Slot P T)
  | .moved _ _ _, line => line.tail
  | _, line => line

/-- What the consumer has loaded is still so. -/
def ConsumerValid (q : MpscQueue P T) (line : List (Slot P T)) : Prop :=
  match q.consumer with
  | .tailLoaded _ tail => tail = q.tail
  | .nextLoaded tail next => tail = q.tail ∧ (q.node tail).next = some next
  | .moved tail next _ => tail = q.tail ∧ (q.node tail).next = some next
  | .tailStored tail _ => (q.nodes tail).isSome ∧ tail ∉ q.tail :: lineNodes line ∧
      ∀ p input, q.producers p ≠ .created tail input
  | _ => True

/-- The nodes of the queue form a line that reads as the queue with gaps `g`. -/
structure Represents (q : MpscQueue P T) (line : List (Slot P T)) (g : GapQueue P T) : Prop where
  linked : q.Linked q.tail line
  nodup : (q.tail :: lineNodes line).Nodup
  /-- The nodes of the line are allocated. -/
  allocated : ∀ a ∈ q.tail :: lineNodes line, (q.nodes a).isSome
  /-- A producer that has executed its exchange owns a slot. -/
  owned : ∀ p a b, q.producers p = .exchanged a b → ∃ s ∈ line, s.owner = some p
  /-- A node that has been created is not yet in the line. -/
  created : ∀ p a x, q.producers p = .created a x →
    a ∉ q.tail :: lineNodes line ∧ q.nodes a = some { dataPtr := some x }
  /-- Distinct producers create distinct nodes. -/
  distinct : ∀ p r a x y, q.producers p = .created a x → q.producers r = .created a y → p = r
  consumer : q.ConsumerValid line
  /-- The items that have not been moved are in their nodes. -/
  data : ∀ s ∈ waiting q.consumer line, (q.node s.node).dataPtr = some s.item
  entries : g.entries = (waiting q.consumer line).map Slot.entry
  announced : g.announced = q.exchanged
  taken : g.taken = q.output
  safe : q.invalidAccess = false

section Nodes

variable (q : MpscQueue P T)

@[simp] theorem node_setNode_self (a : NodePtr) (n : BufferNode T) :
    (q.setNode a n).node a = n := by
  simp [node, setNode]

theorem node_setNode_of_ne {a b : NodePtr} (h : b ≠ a) (n : BufferNode T) :
    (q.setNode a n).node b = q.node b := by
  simp [node, setNode, h]

theorem nodes_setNode_of_ne {a b : NodePtr} (h : b ≠ a) (n : BufferNode T) :
    (q.setNode a n).nodes b = q.nodes b := by
  simp [setNode, h]

theorem isSome_setNode {a b : NodePtr} (h : (q.nodes b).isSome) (n : BufferNode T) :
    ((q.setNode a n).nodes b).isSome := by
  by_cases hab : b = a
  · simp [setNode, hab]
  · rwa [nodes_setNode_of_ne q hab]

theorem access_eq {a : NodePtr} (h : (q.nodes a).isSome) : q.access a = q := by
  simp [access, Option.isNone_eq_false_iff.mpr h]

end Nodes

/-- The queue that has just been constructed is empty. -/
theorem Represents.constructed (a : NodePtr) :
    (constructed a : MpscQueue P T).Represents [] {} where
  linked := ⟨rfl, by simp [node, MpscQueue.constructed]⟩
  nodup := by simp
  allocated := by simp [MpscQueue.constructed]
  owned := by simp [MpscQueue.constructed]
  created := by simp [MpscQueue.constructed]
  distinct := by simp [MpscQueue.constructed]
  consumer := trivial
  data := by simp [MpscQueue.constructed, waiting]
  entries := rfl
  announced := rfl
  taken := rfl
  safe := rfl

/-- A producer that owns a slot has executed its exchange. -/
theorem Represents.producer_of_owner {q : MpscQueue P T} {line : List (Slot P T)}
    {g : GapQueue P T} (h : q.Represents line g) {s : Slot P T} (hs : s ∈ line) {p : P}
    (hp : s.owner = some p) : ∃ b, q.producers p = .exchanged s.node b := by
  obtain ⟨b, -, -, hprod⟩ := h.linked.owner hs hp
  exact ⟨b, hprod⟩

/-- While an item is being taken, its slot is the first of the line. -/
theorem Represents.first_slot {q : MpscQueue P T} {line : List (Slot P T)} {g : GapQueue P T}
    (h : q.Represents line g) {next : NodePtr} (hnext : (q.node q.tail).next = some next) :
    ∃ s rest, line = s :: rest ∧ s.node = next ∧ s.owner = none :=
  h.linked.next_some hnext

/-- A slot at the end of the line is also the last one waiting. -/
theorem Represents.waiting_append {q : MpscQueue P T} {line : List (Slot P T)}
    {g : GapQueue P T} (h : q.Represents line g) (s : Slot P T) :
    waiting q.consumer (line ++ [s]) = waiting q.consumer line ++ [s] := by
  have hvalid := h.consumer
  unfold ConsumerValid at hvalid
  cases hc : q.consumer with
  | moved tail next x =>
    simp only [hc] at hvalid
    obtain ⟨rfl, hnext⟩ := hvalid
    obtain ⟨t, rest, rfl, -⟩ := h.first_slot hnext
    rfl
  | _ => rfl

/-- The waiting slots are slots of the line. -/
theorem mem_of_mem_waiting {c : ConsumerPoint T} {line : List (Slot P T)} {s : Slot P T}
    (hs : s ∈ waiting c line) : s ∈ line := by
  unfold waiting at hs
  split at hs
  · exact List.mem_of_mem_tail hs
  · exact hs

variable {q : MpscQueue P T} {line : List (Slot P T)} {g : GapQueue P T}

section Producers

variable [DecidableEq P]

/-- A node is created at an address that is not in use. -/
theorem Represents.createNode (h : q.Represents line g) {p : P} {x : T} {a : NodePtr}
    (hp : q.producers p = .idle) (ha : q.nodes a = none) :
    (q.createNode p x a).Represents line g := by
  have hne : ∀ b, (q.nodes b).isSome → b ≠ a := by
    rintro b hb rfl
    simp [ha] at hb
  have hother : ∀ r, q.producers r ≠ .idle → (q.createNode p x a).producers r = q.producers r := by
    intro r hr
    have hrp : r ≠ p := fun hrp => hr (hrp ▸ hp)
    simp [MpscQueue.createNode, setProducer, setNode, hrp]
  have hnode : ∀ b, b ≠ a → (q.createNode p x a).node b = q.node b :=
    fun b hb => node_setNode_of_ne q hb _
  have hfresh : ∀ b ∈ q.tail :: lineNodes line, b ≠ a := fun b hb => hne b (h.allocated b hb)
  have hpoint : ∀ r, (q.createNode p x a).producers r =
      if r = p then .created a x else q.producers r := by
    intro r
    by_cases hr : r = p <;> simp [MpscQueue.createNode, setProducer, setNode, hr]
  have hnodes : ∀ b, b ≠ a → (q.createNode p x a).nodes b = q.nodes b :=
    fun b hb => nodes_setNode_of_ne q hb _
  have hcreatedNe : ∀ r b y, q.producers r = .created b y → b ≠ a := by
    intro r b y hr
    exact hne b (by rw [(h.created r b y hr).2]; rfl)
  refine
    { linked := ?linked, nodup := h.nodup, allocated := ?allocated, owned := ?owned
      created := ?created, distinct := ?distinct, consumer := ?consumer, data := ?data
      entries := h.entries, announced := h.announced, taken := h.taken, safe := h.safe }
  case linked =>
    refine h.linked.congr rfl (fun b hb => by rw [hnode b (hfresh b hb)]) fun s hs r hr => ?_
    obtain ⟨b, hb⟩ := h.producer_of_owner hs hr
    exact hother r (by simp [hb])
  case allocated => exact fun b hb => isSome_setNode q (h.allocated b hb) _
  case owned =>
    intro r b c hr
    rw [hpoint] at hr
    split at hr
    · cases hr
    · exact h.owned r b c hr
  case created =>
    intro r b y hr
    rw [hpoint] at hr
    split at hr
    · cases hr
      exact ⟨fun hmem => hfresh a hmem rfl, by simp [MpscQueue.createNode, setProducer, setNode]⟩
    · obtain ⟨hmem, hnodesb⟩ := h.created r b y hr
      exact ⟨hmem, (hnodes b (hcreatedNe r b y hr)).trans hnodesb⟩
  case distinct =>
    intro r t b y z hr ht
    rw [hpoint] at hr ht
    split at hr <;> split at ht
    · next hrp htp => exact hrp.trans htp.symm
    · cases hr
      exact absurd rfl (hcreatedNe t a z ht)
    · cases ht
      exact absurd rfl (hcreatedNe r a y hr)
    · exact h.distinct r t b y z hr ht
  case consumer =>
    have hvalid := h.consumer
    unfold ConsumerValid at hvalid ⊢
    cases hc : q.consumer with
    | idle | dequeued | observed => simp [MpscQueue.createNode, setProducer, setNode, hc]
    | tailLoaded d t => simpa [MpscQueue.createNode, setProducer, setNode, hc] using hvalid
    | nextLoaded t n | moved t n y =>
      simp only [hc] at hvalid
      have htail : q.tail ≠ a := hfresh q.tail (by simp)
      simp only [MpscQueue.createNode, setProducer, setNode, hc]
      exact ⟨hvalid.1, by rw [← hvalid.2, hvalid.1]; exact congrArg _ (hnode _ htail)⟩
    | tailStored t y =>
      simp only [hc] at hvalid
      have hta : t ≠ a := hne t hvalid.1
      simp only [MpscQueue.createNode, setProducer, setNode, hc]
      refine ⟨isSome_setNode q hvalid.1 _, hvalid.2.1, fun r z hr => ?_⟩
      have hr' : (q.createNode p x a).producers r = .created t z := hr
      rw [hpoint] at hr'
      split at hr'
      · cases hr'
        exact hta rfl
      · exact hvalid.2.2 r z hr'
  case data =>
    intro s hs
    have hsnode : s.node ∈ q.tail :: lineNodes line :=
      List.mem_cons_of_mem _ (List.mem_map_of_mem (mem_of_mem_waiting hs))
    rw [hnode _ (hfresh _ hsnode)]
    exact h.data s hs

/-- An exchange puts the node at the end of the line. -/
theorem Represents.exchangeHead (h : q.Represents line g) {p : P} {x : T} {a : NodePtr}
    (hp : q.producers p = .created a x) :
    (q.exchangeHead p a x).Represents (line ++ [⟨a, x, some p⟩]) (g.announce p x) := by
  obtain ⟨hfresh, hnew⟩ := h.created p a x hp
  have hpoint : ∀ r, (q.exchangeHead p a x).producers r =
      if r = p then .exchanged a q.head else q.producers r := by
    intro r
    by_cases hr : r = p <;> simp [MpscQueue.exchangeHead, setProducer, hr]
  have hnode : (q.node a) = { dataPtr := some x } := by simp [node, hnew]
  have hchain : ∀ b, b ∈ q.tail :: lineNodes (line ++ [⟨a, x, some p⟩]) →
      b ∈ q.tail :: lineNodes line ∨ b = a := by
    intro b hb
    simpa [or_assoc] using hb
  refine
    { linked := ?linked, nodup := ?nodup, allocated := ?allocated, owned := ?owned
      created := ?created, distinct := ?distinct, consumer := ?consumer, data := ?data
      entries := ?entries, announced := ?announced, taken := h.taken, safe := h.safe }
  case linked =>
    refine h.linked.append rfl (congrArg _ hnode) (fun _ _ => rfl) (fun s hs r hr => ?_) ?_
    · obtain ⟨b, hb⟩ := h.producer_of_owner hs hr
      rw [hpoint, if_neg]
      rintro rfl
      simp [hp] at hb
    · rw [hpoint, if_pos rfl]
  case nodup =>
    have hnodup := h.nodup
    simp only [lineNodes_append, lineNodes_cons, lineNodes_nil]
    rw [← List.cons_append, List.nodup_append]
    exact ⟨hnodup, by simp, fun b hb c hc => by
      rw [List.mem_singleton] at hc
      exact fun hbc => hfresh (hc ▸ hbc ▸ hb)⟩
  case allocated =>
    intro b hb
    rcases hchain b hb with hb | rfl
    · exact h.allocated b hb
    · exact Option.isSome_of_eq_some hnew
  case owned =>
    intro r b c hr
    rw [hpoint] at hr
    split at hr
    · next hrp => exact ⟨⟨a, x, some p⟩, by simp, congrArg some hrp.symm⟩
    · obtain ⟨s, hs, howner⟩ := h.owned r b c hr
      exact ⟨s, List.mem_append_left _ hs, howner⟩
  case created =>
    intro r b y hr
    rw [hpoint] at hr
    split at hr
    · cases hr
    · next hrp =>
      obtain ⟨hmem, hnodes⟩ := h.created r b y hr
      refine ⟨fun hb => ?_, hnodes⟩
      rcases hchain b hb with hb | rfl
      · exact hmem hb
      · exact hrp (h.distinct r p b y x hr hp)
  case distinct =>
    intro r t b y z hr ht
    rw [hpoint] at hr ht
    split at hr
    · cases hr
    · split at ht
      · cases ht
      · exact h.distinct r t b y z hr ht
  case consumer =>
    have hvalid := h.consumer
    unfold ConsumerValid at hvalid ⊢
    cases hc : q.consumer with
    | idle | dequeued | observed => simp [MpscQueue.exchangeHead, setProducer, hc]
    | tailLoaded d t => simpa [MpscQueue.exchangeHead, setProducer, hc] using hvalid
    | nextLoaded t n | moved t n y =>
      simp only [hc] at hvalid
      simp only [MpscQueue.exchangeHead, setProducer, hc]
      exact hvalid
    | tailStored t y =>
      simp only [hc] at hvalid
      simp only [MpscQueue.exchangeHead, setProducer, hc]
      refine ⟨hvalid.1, fun ht => ?_, fun r z hr => ?_⟩
      · rcases hchain t ht with ht | rfl
        · exact hvalid.2.1 ht
        · exact hvalid.2.2 p x hp
      · have hr' : (q.exchangeHead p a x).producers r = .created t z := hr
        rw [hpoint] at hr'
        split at hr'
        · cases hr'
        · exact hvalid.2.2 r z hr'
  case data =>
    intro s hs
    have hwaiting : waiting q.consumer (line ++ [⟨a, x, some p⟩]) =
        waiting q.consumer line ++ [⟨a, x, some p⟩] := h.waiting_append _
    have hs' : s ∈ waiting q.consumer line ++ [⟨a, x, some p⟩] := hwaiting ▸ hs
    rcases List.mem_append.mp hs' with hs' | hs'
    · exact h.data s hs'
    · obtain rfl := List.mem_singleton.mp hs'
      exact congrArg BufferNode.dataPtr hnode
  case entries =>
    have hentries : (g.announce p x).entries = (waiting q.consumer line).map Slot.entry ++
        [(x, some p)] := congrArg (· ++ [(x, some p)]) h.entries
    have hmap : (waiting q.consumer (line ++ [⟨a, x, some p⟩])).map Slot.entry =
        (waiting q.consumer line).map Slot.entry ++ [(x, some p)] := by
      rw [h.waiting_append, List.map_append]
      rfl
    exact hentries.trans hmap.symm
  case announced => exact congrArg (· ++ [(p, x)]) h.announced

/-- The stored link publishes the slot of its producer. -/
theorem Represents.storeNext (h : q.Represents line g) {p : P} {a b : NodePtr}
    (hp : q.producers p = .exchanged a b) :
    (q.storeNext p a b).Represents (line.map (Slot.publish p)) (g.publish p) := by
  obtain ⟨s, hs, howner⟩ := h.owned p a b hp
  obtain ⟨c, hc, -, hprod⟩ := h.linked.owner hs howner
  rw [hp, EnqueuePoint.exchanged.injEq] at hprod
  obtain ⟨-, rfl⟩ := hprod
  have hb := h.allocated b hc
  have hstore : q.storeNext p a b =
      (q.setNode b { q.node b with next := some a }).setProducer p .idle := by
    rw [MpscQueue.storeNext, access_eq q hb]
  have hpoint : ∀ r, (q.storeNext p a b).producers r =
      if r = p then .idle else q.producers r := by
    intro r
    rw [hstore]
    by_cases hr : r = p <;> simp [setProducer, setNode, hr]
  have hself : (q.storeNext p a b).node b = { q.node b with next := some a } := by
    rw [hstore]
    exact node_setNode_self q b _
  have hother : ∀ d, d ≠ b → (q.storeNext p a b).node d = q.node d := by
    intro d hd
    rw [hstore]
    exact node_setNode_of_ne q hd _
  have hdata : ∀ d, ((q.storeNext p a b).node d).dataPtr = (q.node d).dataPtr := by
    intro d
    by_cases hd : d = b
    · rw [hd, hself]
    · rw [hother d hd]
  have hsome : ∀ d, (q.nodes d).isSome → ((q.storeNext p a b).nodes d).isSome := by
    intro d hd
    rw [hstore]
    exact isSome_setNode q hd _
  have htail : (q.storeNext p a b).tail = q.tail := by rw [hstore]; rfl
  have hconsumer : (q.storeNext p a b).consumer = q.consumer := by rw [hstore]; rfl
  have hwaiting : waiting q.consumer (line.map (Slot.publish p)) =
      (waiting q.consumer line).map (Slot.publish p) := by
    cases q.consumer with
    | moved => exact List.map_tail.symm
    | _ => rfl
  -- the node that is written has no successor yet, so nothing loaded from it changes
  have hnextNone : (q.node b).next = none := by
    obtain ⟨d, -, hnone, hprod⟩ := h.linked.owner hs howner
    rw [hp, EnqueuePoint.exchanged.injEq] at hprod
    exact hprod.2 ▸ hnone
  refine
    { linked := ?linked, nodup := ?nodup, allocated := ?allocated, owned := ?owned
      created := ?created, distinct := ?distinct, consumer := ?consumer, data := ?data
      entries := ?entries, announced := ?announced, taken := ?taken, safe := ?safe }
  case linked =>
    rw [htail]
    refine h.linked.publish h.nodup hp ⟨s, hs, howner⟩ (by rw [hstore]; rfl) (by rw [hself])
      (fun d hd => by rw [hother d hd]) fun r hr => by rw [hpoint, if_neg hr]
  case nodup => rw [htail, lineNodes_publish]; exact h.nodup
  case allocated =>
    rw [htail, lineNodes_publish]
    exact fun d hd => hsome d (h.allocated d hd)
  case owned =>
    intro r c d hr
    rw [hpoint] at hr
    split at hr
    · cases hr
    · next hrp =>
      obtain ⟨t, ht, htr⟩ := h.owned r c d hr
      refine ⟨t.publish p, List.mem_map_of_mem ht, ?_⟩
      rw [Slot.publish_of_ne (by rw [htr]; simpa using hrp), htr]
  case created =>
    intro r c y hr
    rw [hpoint] at hr
    split at hr
    · cases hr
    · obtain ⟨hmem, hnodes⟩ := h.created r c y hr
      rw [htail, lineNodes_publish]
      refine ⟨hmem, ?_⟩
      have hcb : c ≠ b := fun hcb => hmem (hcb ▸ hc)
      rw [hstore]
      exact (nodes_setNode_of_ne q hcb _).trans hnodes
  case distinct =>
    intro r t c y z hr ht
    rw [hpoint] at hr ht
    split at hr
    · cases hr
    · split at ht
      · cases ht
      · exact h.distinct r t c y z hr ht
  case consumer =>
    have hvalid := h.consumer
    unfold ConsumerValid at hvalid ⊢
    rw [hconsumer]
    cases hcons : q.consumer with
    | idle | dequeued | observed => trivial
    | tailLoaded d t => simpa [hcons, htail] using hvalid
    | nextLoaded t n | moved t n y =>
      simp only [hcons] at hvalid
      have htb : t ≠ b := by
        rintro rfl
        rw [hnextNone] at hvalid
        cases hvalid.2
      simp only [htail, hother t htb]
      exact hvalid
    | tailStored t y =>
      simp only [hcons] at hvalid
      simp only [htail, lineNodes_publish]
      refine ⟨hsome t hvalid.1, hvalid.2.1, fun r z hr => ?_⟩
      rw [hpoint] at hr
      split at hr
      · cases hr
      · exact hvalid.2.2 r z hr
  case data =>
    intro t ht
    rw [hconsumer, hwaiting] at ht
    obtain ⟨u, hu, rfl⟩ := List.mem_map.mp ht
    rw [hdata, Slot.publish_node, Slot.publish_item]
    exact h.data u hu
  case entries =>
    rw [hconsumer, hwaiting, List.map_map]
    have hentries : (g.publish p).entries =
        ((waiting q.consumer line).map Slot.entry).map (GapQueue.publishEntry p) :=
      congrArg (List.map (GapQueue.publishEntry p)) h.entries
    rw [hentries, List.map_map]
    exact List.map_congr_left fun t _ => (Slot.entry_publish t).symm
  case announced => rw [hstore]; exact h.announced
  case taken => rw [hstore]; exact h.taken
  case safe => rw [hstore]; exact h.safe

end Producers

/-- A step of the consumer that changes only its position keeps the line. -/
theorem Represents.setConsumer (h : q.Represents line g) {c : ConsumerPoint T}
    (hvalid : ({ q with consumer := c } : MpscQueue P T).ConsumerValid line)
    (hwaiting : waiting c line = waiting q.consumer line) :
    ({ q with consumer := c } : MpscQueue P T).Represents line g where
  linked := h.linked.congr rfl (fun _ _ => rfl) fun _ _ _ _ => rfl
  nodup := h.nodup
  allocated := h.allocated
  owned := h.owned
  created := h.created
  distinct := h.distinct
  consumer := hvalid
  data := by
    intro s hs
    exact h.data s (hwaiting ▸ hs)
  entries := h.entries.trans (congrArg (List.map Slot.entry) hwaiting.symm)
  announced := h.announced
  taken := h.taken
  safe := h.safe

/-- The load of `next_` finds a node, and goes on or returns. -/
theorem Represents.loadNext (h : q.Represents line g) {dequeuing : Bool} {tail : NodePtr}
    (hc : q.consumer = .tailLoaded dequeuing tail) :
    (q.loadNext dequeuing tail).Represents line g := by
  have htail := h.consumer
  simp only [ConsumerValid, hc] at htail
  subst htail
  rw [MpscQueue.loadNext, access_eq q (h.allocated q.tail (by simp))]
  cases dequeuing with
  | false => exact h.setConsumer trivial (by rw [hc]; rfl)
  | true =>
    cases hnext : (q.node q.tail).next with
    | none => exact h.setConsumer trivial (by rw [hc]; rfl)
    | some next => exact h.setConsumer ⟨rfl, hnext⟩ (by rw [hc]; rfl)

/-- The first item is moved out of its node. -/
theorem Represents.moveData (h : q.Represents line g) {tail next : NodePtr}
    (hc : q.consumer = .nextLoaded tail next) :
    ∃ x g', g.take = some (x, g') ∧ (q.moveData tail next).Represents line g' := by
  have hvalid := h.consumer
  simp only [ConsumerValid, hc] at hvalid
  obtain ⟨rfl, hnext⟩ := hvalid
  obtain ⟨s, rest, rfl, rfl, howner⟩ := h.first_slot hnext
  have hwaiting : waiting q.consumer (s :: rest) = s :: rest := by rw [hc]; rfl
  have hdata : (q.node s.node).dataPtr = some s.item := h.data s (by rw [hwaiting]; simp)
  have hentries : g.entries = (s.item, none) :: rest.map Slot.entry := by
    rw [h.entries, hwaiting, List.map_cons, Slot.entry, howner]
  have hsome : (q.nodes s.node).isSome := h.allocated _ (by simp)
  have hmove : q.moveData q.tail s.node =
      { q.setNode s.node { q.node s.node with dataPtr := none } with
        consumer := .moved q.tail s.node s.item, output := q.output ++ [s.item] } := by
    rw [MpscQueue.moveData, hdata, access_eq q hsome]
  have hlinks : ∀ b, ((q.moveData q.tail s.node).node b).next = (q.node b).next := by
    intro b
    have hnode : (q.moveData q.tail s.node).node b =
        (q.setNode s.node { q.node s.node with dataPtr := none }).node b := by rw [hmove]; rfl
    rw [hnode]
    by_cases hb : b = s.node
    · rw [hb, node_setNode_self]
    · rw [node_setNode_of_ne q hb]
  have hnodes : ∀ b, b ≠ s.node → (q.moveData q.tail s.node).nodes b = q.nodes b := by
    intro b hb
    rw [hmove]
    exact nodes_setNode_of_ne q hb _
  refine ⟨s.item, { g with entries := rest.map Slot.entry, taken := g.taken ++ [s.item] }, ?_, ?_⟩
  · unfold GapQueue.take
    rw [hentries]
  · refine
      { linked := ?linked, nodup := ?nodup, allocated := ?allocated, owned := ?owned
        created := ?created, distinct := ?distinct, consumer := ?consumer, data := ?data
        entries := ?entries, announced := ?announced, taken := ?taken, safe := ?safe }
    case linked =>
      have htail : (q.moveData q.tail s.node).tail = q.tail := by rw [hmove]; rfl
      rw [htail]
      exact h.linked.congr (by rw [hmove]; rfl) (fun b _ => hlinks b)
        fun _ _ _ _ => by rw [hmove]; rfl
    case nodup => rw [hmove]; exact h.nodup
    case allocated =>
      rw [hmove]
      exact fun b hb => isSome_setNode q (h.allocated b hb) _
    case owned => rw [hmove]; exact h.owned
    case created =>
      intro p a x hp
      have hp' : q.producers p = .created a x := by rw [hmove] at hp; exact hp
      obtain ⟨hmem, hcreated⟩ := h.created p a x hp'
      have ha : a ≠ s.node := fun ha => hmem (by simp [ha])
      exact ⟨by rw [hmove]; exact hmem, (hnodes a ha).trans hcreated⟩
    case distinct => rw [hmove]; exact h.distinct
    case consumer =>
      have hnext' := (hlinks q.tail).trans hnext
      rw [hmove] at hnext' ⊢
      exact ⟨rfl, hnext'⟩
    case data =>
      intro t ht
      have ht' : t ∈ rest := by rw [hmove] at ht; exact ht
      have hne : t.node ≠ s.node := by
        have hnodup := (List.nodup_cons.mp h.nodup).2
        rw [lineNodes_cons, List.nodup_cons] at hnodup
        exact fun hts => hnodup.1 (hts ▸ List.mem_map_of_mem ht')
      have hsame : (q.moveData q.tail s.node).node t.node = q.node t.node := by
        simp only [node, hnodes _ hne]
      rw [hsame]
      exact h.data t (by rw [hwaiting]; exact List.mem_cons_of_mem _ ht')
    case entries => rw [hmove]; rfl
    case announced => rw [hmove]; exact h.announced
    case taken => rw [hmove]; exact congrArg (· ++ [s.item]) h.taken
    case safe => rw [hmove]; exact h.safe

/-- The second node becomes the tail. -/
theorem Represents.storeTail (h : q.Represents line g) {tail next : NodePtr} {x : T}
    (hc : q.consumer = .moved tail next x) :
    ({ q with tail := next, consumer := .tailStored tail x } : MpscQueue P T).Represents
      line.tail g := by
  have hvalid := h.consumer
  simp only [ConsumerValid, hc] at hvalid
  obtain ⟨rfl, hnext⟩ := hvalid
  obtain ⟨s, rest, rfl, rfl, howner⟩ := h.first_slot hnext
  have hwaiting : waiting q.consumer (s :: rest) = rest := by rw [hc]; rfl
  have hnodup := List.nodup_cons.mp h.nodup
  refine
    { linked := ?linked, nodup := hnodup.2, allocated := ?allocated, owned := ?owned
      created := ?created, distinct := h.distinct, consumer := ?consumer, data := ?data
      entries := ?entries, announced := h.announced, taken := h.taken, safe := h.safe }
  case linked => exact h.linked.2.congr rfl (fun _ _ => rfl) fun _ _ _ _ => rfl
  case allocated => exact fun b hb => h.allocated b (List.mem_cons_of_mem _ hb)
  case owned =>
    intro p a b hp
    obtain ⟨t, ht, htp⟩ := h.owned p a b hp
    rcases List.mem_cons.mp ht with rfl | ht
    · rw [howner] at htp
      cases htp
    · exact ⟨t, ht, htp⟩
  case created =>
    intro p a y hp
    obtain ⟨hmem, hcreated⟩ := h.created p a y hp
    exact ⟨fun ha => hmem (List.mem_cons_of_mem _ ha), hcreated⟩
  case consumer =>
    refine ⟨h.allocated q.tail (by simp), hnodup.1, fun p y hp => ?_⟩
    exact (h.created p q.tail y hp).1 (by simp)
  case data =>
    intro t ht
    exact h.data t (by rw [hwaiting]; exact ht)
  case entries => exact h.entries.trans (by rw [hwaiting]; rfl)

/-- The old tail is deleted. -/
theorem Represents.deleteTail (h : q.Represents line g) {tail : NodePtr} {x : T}
    (hc : q.consumer = .tailStored tail x) :
    ({ q.deleteNode tail with consumer := .dequeued (some x) } : MpscQueue P T).Represents
      line g := by
  have hvalid := h.consumer
  simp only [ConsumerValid, hc] at hvalid
  obtain ⟨halloc, hout, hcreatedNe⟩ := hvalid
  have hnodes : ∀ b, b ≠ tail → (q.deleteNode tail).nodes b = q.nodes b := by
    intro b hb
    simp [MpscQueue.deleteNode, hb]
  have hnode : ∀ b ∈ q.tail :: lineNodes line, (q.deleteNode tail).node b = q.node b := by
    intro b hb
    simp only [node, hnodes b fun hbt => hout (hbt ▸ hb)]
  have hwaiting : waiting q.consumer line = line := by rw [hc]; rfl
  refine
    { linked := ?linked, nodup := h.nodup, allocated := ?allocated, owned := h.owned
      created := ?created, distinct := h.distinct, consumer := trivial, data := ?data
      entries := ?entries, announced := h.announced, taken := h.taken, safe := ?safe }
  case linked =>
    exact h.linked.congr rfl (fun b hb => congrArg _ (hnode b hb)) fun _ _ _ _ => rfl
  case allocated =>
    intro b hb
    have hsame := hnodes b fun hbt => hout (hbt ▸ hb)
    exact (congrArg Option.isSome hsame).trans (h.allocated b hb)
  case created =>
    intro p a y hp
    obtain ⟨hmem, hcreated⟩ := h.created p a y hp
    refine ⟨hmem, (hnodes a ?_).trans hcreated⟩
    rintro rfl
    exact hcreatedNe p y hp
  case data =>
    intro t ht
    have ht' : t ∈ line := ht
    have hsame := hnode t.node (List.mem_cons_of_mem _ (List.mem_map_of_mem ht'))
    exact (congrArg BufferNode.dataPtr hsame).trans (h.data t (by rw [hwaiting]; exact ht'))
  case entries => exact h.entries.trans (by rw [hwaiting]; rfl)
  case safe =>
    simp [MpscQueue.deleteNode, MpscQueue.access, h.safe, Option.isNone_eq_false_iff.mpr halloc]

variable [DecidableEq P]

/-- Every atomic step is a step of the queue with gaps, or leaves it unchanged. -/
theorem Represents.next {q' : MpscQueue P T} (h : q.Represents line g) {e : MpscStep P T}
    (hnext : q.next e = some q') :
    ∃ line' g', q'.Represents line' g' ∧ (g' = g ∨ GapQueue.Step g g') := by
  cases e with
  | enqueue p x a =>
    simp only [MpscQueue.next] at hnext
    split at hnext
    · next hp ha =>
      obtain rfl := Option.some.inj hnext
      exact ⟨line, g, h.createNode hp ha, .inl rfl⟩
    · cases hnext
  | exchange p =>
    simp only [MpscQueue.next] at hnext
    split at hnext
    · next a x hp =>
      obtain rfl := Option.some.inj hnext
      exact ⟨_, _, h.exchangeHead hp, .inr (.announce p x)⟩
    · cases hnext
  | storeNext p =>
    simp only [MpscQueue.next] at hnext
    split at hnext
    · next a b hp =>
      obtain rfl := Option.some.inj hnext
      exact ⟨_, _, h.storeNext hp, .inr (.publish p)⟩
    · cases hnext
  | dequeue | empty =>
    simp only [MpscQueue.next] at hnext
    split at hnext
    · next hc =>
      obtain rfl := Option.some.inj hnext
      exact ⟨line, g, h.setConsumer rfl (by rw [hc]; rfl), .inl rfl⟩
    · cases hnext
  | loadNext =>
    simp only [MpscQueue.next] at hnext
    split at hnext
    · next d t hc =>
      obtain rfl := Option.some.inj hnext
      exact ⟨line, g, h.loadNext hc, .inl rfl⟩
    · cases hnext
  | moveData =>
    simp only [MpscQueue.next] at hnext
    split at hnext
    · next t n hc =>
      obtain rfl := Option.some.inj hnext
      obtain ⟨x, g', htake, hrep⟩ := h.moveData hc
      exact ⟨line, g', hrep, .inr (.take htake)⟩
    · cases hnext
  | storeTail =>
    simp only [MpscQueue.next] at hnext
    split at hnext
    · next t n x hc =>
      obtain rfl := Option.some.inj hnext
      exact ⟨_, g, h.storeTail hc, .inl rfl⟩
    · cases hnext
  | deleteTail =>
    simp only [MpscQueue.next] at hnext
    split at hnext
    · next t x hc =>
      obtain rfl := Option.some.inj hnext
      exact ⟨line, g, h.deleteTail hc, .inl rfl⟩
    · cases hnext
  | returns =>
    simp only [MpscQueue.next] at hnext
    split at hnext
    · next hc =>
      obtain rfl := Option.some.inj hnext
      exact ⟨line, g, h.setConsumer trivial (by rw [hc]; rfl), .inl rfl⟩
    · next hc =>
      obtain rfl := Option.some.inj hnext
      exact ⟨line, g, h.setConsumer trivial (by rw [hc]; rfl), .inl rfl⟩
    · cases hnext

/-- Each producer's items have been exchanged in the order of its calls, except for
the one whose node has only been created. -/
def InCallOrder (q : MpscQueue P T) : Prop :=
  ∀ p, (q.exchanged.filter fun e => e.1 = p).map Prod.snd ++ (q.producers p).pending = q.issued p

/-- A step that concerns neither producers nor their history keeps the order of the calls. -/
theorem InCallOrder.congr {q' : MpscQueue P T} (h : q.InCallOrder)
    (hexchanged : q'.exchanged = q.exchanged) (hproducers : q'.producers = q.producers)
    (hissued : q'.issued = q.issued) : q'.InCallOrder := by
  intro p
  rw [hexchanged, hproducers, hissued]
  exact h p

/-- Every atomic step keeps the order of the calls. -/
theorem InCallOrder.next {q' : MpscQueue P T} (h : q.InCallOrder) {e : MpscStep P T}
    (hnext : q.next e = some q') : q'.InCallOrder := by
  cases e with
  | enqueue p x a =>
    simp only [MpscQueue.next] at hnext
    split at hnext
    · next hp ha =>
      obtain rfl := Option.some.inj hnext
      intro r
      have hr := h r
      by_cases hrp : r = p
      · subst hrp
        simpa [createNode, setProducer, setNode, EnqueuePoint.pending, hp] using hr
      · simpa [createNode, setProducer, setNode, hrp] using hr
    · cases hnext
  | exchange p =>
    simp only [MpscQueue.next] at hnext
    split at hnext
    · next a x hp =>
      obtain rfl := Option.some.inj hnext
      intro r
      have hr := h r
      by_cases hrp : r = p
      · subst hrp
        simpa [exchangeHead, setProducer, EnqueuePoint.pending, hp] using hr
      · simpa [exchangeHead, setProducer, hrp, Ne.symm hrp] using hr
    · cases hnext
  | storeNext p =>
    simp only [MpscQueue.next] at hnext
    split at hnext
    · next a b hp =>
      obtain rfl := Option.some.inj hnext
      intro r
      have hr := h r
      by_cases hrp : r = p
      · subst hrp
        simpa [storeNext, setProducer, setNode, access, EnqueuePoint.pending, hp] using hr
      · simpa [storeNext, setProducer, setNode, access, hrp] using hr
    · cases hnext
  | moveData =>
    simp only [MpscQueue.next] at hnext
    split at hnext
    · obtain rfl := Option.some.inj hnext
      unfold moveData
      split
      · exact h.congr rfl rfl rfl
      · exact h.congr rfl rfl rfl
    · cases hnext
  | dequeue | empty | loadNext | storeTail | deleteTail | returns =>
    simp only [MpscQueue.next] at hnext
    split at hnext <;> cases hnext <;> exact h.congr rfl rfl rfl

/-- What holds of the queue between its atomic steps. -/
structure Linearizable (q : MpscQueue P T) : Prop where
  /-- Only allocated nodes and existing data have been accessed. -/
  safe : q.invalidAccess = false
  /-- The items come out in the order of their exchanges. -/
  fifo : q.output <+: q.exchanged.map Prod.snd
  /-- The items that have not come out are in distinct nodes, in the same order. -/
  conserved : ∃ waiting : List (NodePtr × T), (waiting.map Prod.fst).Nodup ∧
    (∀ w ∈ waiting, (q.nodes w.1).bind BufferNode.dataPtr = some w.2) ∧
    q.exchanged.map Prod.snd = q.output ++ waiting.map Prod.snd
  /-- The items of one producer come out in the order of its calls. -/
  producerOrder : ∀ p,
    ((q.exchanged.take q.output.length).filter fun e => e.1 = p).map Prod.snd <+: q.issued p
  /-- No producer holds, or can still obtain, a node that is about to be deleted. -/
  deletion : ∀ tail x, q.consumer = .tailStored tail x →
    q.head ≠ tail ∧ ∀ p a, q.producers p ≠ .exchanged a tail
  /-- While no producer is between its exchange and its store, the consumer finds the
  queue empty only after the last item has come out. -/
  exhausted : ∀ q', q.next .loadNext = some q' →
    q'.consumer = .dequeued none ∨ q'.consumer = .observed true →
    (∀ p a b, q.producers p ≠ .exchanged a b) → q.output = q.exchanged.map Prod.snd

/-- A load that finds no next node leaves `dequeue` or `empty` with an empty queue. -/
theorem next_none_of_loadNext {q' : MpscQueue P T} (hnext : q.next .loadNext = some q')
    (hempty : q'.consumer = .dequeued none ∨ q'.consumer = .observed true) :
    ∃ d tail, q.consumer = .tailLoaded d tail ∧ (q.node tail).next = none := by
  simp only [MpscQueue.next] at hnext
  split at hnext
  · next d tail hc =>
    obtain rfl := Option.some.inj hnext
    refine ⟨d, tail, hc, ?_⟩
    cases hlink : (q.node tail).next with
    | none => rfl
    | some b =>
      cases d <;> simp [loadNext, hlink] at hempty
  · cases hnext

/-- A queue that represents a queue with gaps is linearizable. -/
theorem Represents.linearizable (h : q.Represents line g) (hconserved : g.Conserved)
    (horder : q.InCallOrder) : q.Linearizable where
  safe := h.safe
  fifo := by
    rw [← h.taken, ← h.announced]
    exact hconserved.taken_isPrefix
  conserved := by
    refine ⟨(waiting q.consumer line).map fun s => (s.node, s.item), ?_, ?_, ?_⟩
    · have hnodes : (lineNodes (waiting q.consumer line)).Nodup := by
        have hline := (List.nodup_cons.mp h.nodup).2
        cases q.consumer with
        | moved => exact hline.sublist ((List.tail_sublist line).map _)
        | _ => exact hline
      rw [List.map_map]
      exact hnodes
    · intro w hw
      obtain ⟨s, hs, rfl⟩ := List.mem_map.mp hw
      have halloc : (q.nodes s.node).isSome :=
        h.allocated _ (List.mem_cons_of_mem _ (List.mem_map_of_mem (mem_of_mem_waiting hs)))
      obtain ⟨n, hn⟩ := Option.isSome_iff_exists.mp halloc
      have hdata := h.data s hs
      simpa [node, hn] using hdata
    · have hitems : g.announced.map Prod.snd = g.taken ++ g.entries.map Prod.fst := hconserved
      rw [← h.announced, ← h.taken, hitems, h.entries, List.map_map, List.map_map]
      rfl
  producerOrder := by
    intro p
    have hsplit := horder p
    have hsub : ((q.exchanged.take q.output.length).filter fun e => e.1 = p) <+:
        q.exchanged.filter fun e => e.1 = p := (List.take_prefix _ _).filter _
    exact (hsub.map Prod.snd).trans ⟨_, hsplit⟩
  deletion := by
    intro tail x hc
    have hvalid := h.consumer
    simp only [ConsumerValid, hc] at hvalid
    refine ⟨fun hhead => hvalid.2.1 (hhead ▸ h.linked.head_mem), fun p a hp => ?_⟩
    obtain ⟨s, hs, howner⟩ := h.owned p a tail hp
    obtain ⟨b, hb, -, hprod⟩ := h.linked.owner hs howner
    rw [hp, EnqueuePoint.exchanged.injEq] at hprod
    exact hvalid.2.1 (hprod.2 ▸ hb)
  exhausted := by
    intro q' hnext hempty hidle
    obtain ⟨d, tail, hc, hnone⟩ := next_none_of_loadNext hnext hempty
    have htail := h.consumer
    simp only [ConsumerValid, hc] at htail
    subst htail
    have hunowned : ∀ s ∈ line, s.owner = none := by
      intro s hs
      cases howner : s.owner with
      | none => rfl
      | some p =>
        obtain ⟨b, hb⟩ := h.producer_of_owner hs howner
        exact absurd hb (hidle p s.node b)
    have hentries : g.entries = line.map Slot.entry := by rw [h.entries, hc]; rfl
    rw [← h.taken, ← h.announced]
    refine hconserved.taken_eq ?_ ?_
    · rcases h.linked.next_none hnone with rfl | ⟨s, rest, p, rfl, hs⟩
      · rw [GapQueue.empty, GapQueue.front?, hentries]
        rfl
      · exact absurd (hs.symm.trans (hunowned s (by simp))) (by simp)
    · intro e he
      rw [hentries] at he
      obtain ⟨s, hs, rfl⟩ := List.mem_map.mp he
      exact hunowned s hs

/-- In every state reached by interleaving the atomic steps of any producers and one
consumer, the queue behaves as a FIFO queue: nothing is lost, delivered twice or
reordered, deleted nodes are out of reach, and `false` means empty. -/
theorem linearizable_of_reachable (h : (machine P T).Reachable q) : q.Linearizable := by
  have hinv : (∃ line g, q.Represents line g ∧ g.Conserved) ∧ q.InCallOrder := by
    refine h.invariant
      (I := fun q => (∃ line g, q.Represents line g ∧ g.Conserved) ∧ q.InCallOrder) ?_ ?_
    · rintro s ⟨a, rfl⟩
      exact ⟨⟨[], {}, .constructed a, .init⟩, fun p => rfl⟩
    · rintro s e t ⟨⟨line, g, hrep, hconserved⟩, horder⟩ hstep
      obtain ⟨line', g', hrep', hg⟩ := hrep.next hstep
      refine ⟨⟨line', g', hrep', ?_⟩, horder.next hstep⟩
      rcases hg with rfl | hg
      · exact hconserved
      · exact hconserved.step hg
  obtain ⟨⟨line, g, hrep, hconserved⟩, horder⟩ := hinv
  exact hrep.linearizable hconserved horder

/-- Two producers exchange; the second links first, and the consumer takes the
first item once it is linked. -/
def twoProducers : List (MpscStep Bool ℕ) :=
  [.enqueue false 10 1, .enqueue true 20 2, .exchange false, .exchange true, .storeNext true,
    .storeNext false, .dequeue, .loadNext, .moveData, .storeTail]

/-- The queue after `twoProducers`. -/
def afterTwoProducers : MpscQueue Bool ℕ :=
  (twoProducers.foldlM next (constructed 0)).getD (constructed 0)

theorem afterTwoProducers_eq :
    twoProducers.foldlM next (constructed 0) = some afterTwoProducers := rfl

/-- The first item is out, its node is the tail, and the constructed node may be deleted. -/
theorem linearizable_of_reachable_twoProducers :
    afterTwoProducers.output = [10] ∧ afterTwoProducers.tail = 1 ∧
      afterTwoProducers.Linearizable :=
  ⟨rfl, rfl, linearizable_of_reachable
    (.of_foldlM (.of_init ⟨0, rfl⟩) afterTwoProducers_eq)⟩

end MpscQueue

end DuoDuo.Base
