import FizzDns.Foundation.Heap

/-!
# Intrusive linked lists

Cells that carry their own links, as C programs thread them: a doubly linked list
with a head and a tail pointer, and singly linked chains headed by one pointer each.
The node type is arbitrary; `DLinks` and `CLink` say which fields are links and name
the rest of the node, its body, which the list operations never change.

`DList.Holds` and `Chain` say that a heap holds a given list of addresses. Each
operation has one lemma that gives the list it leaves (`DList.unlink_holds`,
`DList.pushFront_holds`, `Chain.unlink_holds`, `Chain.find_eq`) together with the
frame: bodies, and the liveness of every cell, are as before.
-/

namespace FizzDns

variable {ν π : Type}

/-! ## Doubly linked lists -/

/-- Which fields of a node are its two list links. -/
structure DLinks (ν π : Type) where
  prev : ν → Option Addr
  next : ν → Option Addr
  setPrev : Option Addr → ν → ν
  setNext : Option Addr → ν → ν
  body : ν → π
  prev_setPrev : ∀ link node, prev (setPrev link node) = link
  next_setPrev : ∀ link node, next (setPrev link node) = next node
  prev_setNext : ∀ link node, prev (setNext link node) = prev node
  next_setNext : ∀ link node, next (setNext link node) = link
  body_setPrev : ∀ link node, body (setPrev link node) = body node
  body_setNext : ∀ link node, body (setNext link node) = body node

attribute [simp] DLinks.prev_setPrev DLinks.next_setPrev DLinks.prev_setNext
  DLinks.next_setNext DLinks.body_setPrev DLinks.body_setNext

/-- A heap with the two end pointers of a doubly linked list. -/
structure DList (ν : Type) where
  heap : Heap ν
  head : Option Addr
  tail : Option Addr

namespace DList

variable (links : DLinks ν π)

/-- Point the node before a gap, or the head pointer, at the node behind it. -/
def linkForward (before after : Option Addr) (list : DList ν) : Option (DList ν) :=
  match before with
  | some address => do
      let heap ← list.heap.modify address (links.setNext after)
      some { list with heap := heap }
  | none => some { list with head := after }

/-- Point the node behind a gap, or the tail pointer, at the node before it. -/
def linkBackward (before after : Option Addr) (list : DList ν) : Option (DList ν) :=
  match after with
  | some address => do
      let heap ← list.heap.modify address (links.setPrev before)
      some { list with heap := heap }
  | none => some { list with tail := before }

/-- Take a node off the list. -/
def unlink (address : Addr) (list : DList ν) : Option (DList ν) := do
  let node ← list.heap.read address
  let list ← linkForward links (links.prev node) (links.next node) list
  let list ← linkBackward links (links.prev node) (links.next node) list
  let heap ← list.heap.modify address fun node => links.setNext none (links.setPrev none node)
  some { list with heap := heap }

/-- Put a node that is on no list at the front. -/
def pushFront (address : Addr) (list : DList ν) : Option (DList ν) := do
  let heap ← list.heap.modify address fun node => links.setNext list.head (links.setPrev none node)
  let heap ← match list.head with
    | some first => heap.modify first (links.setPrev (some address))
    | none => some heap
  some
    { heap := heap
      head := some address
      tail := match list.tail with
        | none => some address
        | some last => some last }

/-- The cells hold a stretch of list, entered from `before` and left to `after`. -/
def Segment (cells : Addr → Option ν) : Option Addr → List Addr → Option Addr → Prop
  | _, [], _ => True
  | before, address :: rest, after =>
      (∃ node, cells address = some node ∧ links.prev node = before ∧
        links.next node = rest.head?.or after) ∧ Segment cells (some address) rest after

/-- The heap and end pointers hold exactly the list of addresses. -/
structure Holds (list : DList ν) (addresses : List Addr) : Prop where
  nodup : addresses.Nodup
  head_eq : list.head = addresses.head?
  tail_eq : list.tail = addresses.getLast?
  segment : Segment links list.heap.cells none addresses none

/-- Two heaps agree on which cells are live and on every body. -/
def SameBodies (left right : Heap ν) : Prop :=
  left.fresh = right.fresh ∧
    ∀ address, (left.cells address).map links.body = (right.cells address).map links.body

variable {links} {cells : Addr → Option ν}

theorem SameBodies.refl (heap : Heap ν) : SameBodies links heap heap :=
  ⟨rfl, fun _ => rfl⟩

theorem SameBodies.trans {first second third : Heap ν} (left : SameBodies links first second)
    (right : SameBodies links second third) : SameBodies links first third :=
  ⟨left.1.trans right.1, fun address => (left.2 address).trans (right.2 address)⟩

/-- Changing links only leaves every body. -/
theorem sameBodies_store {heap : Heap ν} {address : Addr} {node changed : ν}
    (live : heap.cells address = some node) (same : links.body changed = links.body node) :
    SameBodies links (heap.store address (some changed) (Heap.lt_fresh live)) heap := by
  refine ⟨rfl, fun other => ?_⟩
  by_cases equal : other = address
  · subst equal
    simp [live, same]
  · simp [Function.update_of_ne equal]

/-- A segment can be cut in two: each part ends where the other begins. -/
theorem segment_append (before : Option Addr) (left right : List Addr) (after : Option Addr) :
    Segment links cells before (left ++ right) after ↔
      Segment links cells before left (right.head?.or after) ∧
        Segment links cells (left.getLast?.or before) right after := by
  induction left generalizing before with
  | nil => simp [Segment]
  | cons address rest ih =>
      have lastOf : ((address :: rest).getLast?).or before = rest.getLast?.or (some address) := by
        cases rest with
        | nil => rfl
        | cons other tail => simp [List.getLast?_cons]
      have headOf : ((rest ++ right).head?).or after = rest.head?.or (right.head?.or after) := by
        cases rest <;> simp
      simp only [List.cons_append, Segment, ih, lastOf, headOf, and_assoc]

/-- A segment depends only on the links of the cells it runs through. -/
theorem segment_congr_links {other : Addr → Option ν} {before after : Option Addr}
    {addresses : List Addr}
    (same : ∀ address ∈ addresses,
      (other address).map (fun node => (links.prev node, links.next node)) =
      (cells address).map fun node => (links.prev node, links.next node))
    (segment : Segment links cells before addresses after) :
    Segment links other before addresses after := by
  induction addresses generalizing before with
  | nil => trivial
  | cons address rest ih =>
      obtain ⟨⟨node, live, prev, next⟩, tail⟩ := segment
      have here := same address List.mem_cons_self
      rw [live, Option.map_some, Option.map_eq_some_iff] at here
      obtain ⟨found, foundLive, foundLinks⟩ := here
      obtain ⟨foundPrev, foundNext⟩ := Prod.mk.inj foundLinks
      exact ⟨⟨found, foundLive, foundPrev.trans prev, foundNext.trans next⟩,
        ih (fun a member => same a (List.mem_cons_of_mem _ member)) tail⟩

/-- A segment depends on its own nodes only. -/
theorem segment_congr {other : Addr → Option ν} {before after : Option Addr}
    {addresses : List Addr} (same : ∀ address ∈ addresses, other address = cells address)
    (segment : Segment links cells before addresses after) :
    Segment links other before addresses after :=
  segment_congr_links (fun address member => congrArg _ (same address member)) segment

/-- The nodes of a segment are live. -/
theorem segment_live {before after : Option Addr} {addresses : List Addr}
    (segment : Segment links cells before addresses after) {address : Addr}
    (member : address ∈ addresses) : ∃ node, cells address = some node := by
  induction addresses generalizing before with
  | nil => cases member
  | cons first rest ih =>
      obtain ⟨⟨node, live, _⟩, tail⟩ := segment
      rcases List.mem_cons.mp member with rfl | later
      · exact ⟨node, live⟩
      · exact ih tail later

/-- A store elsewhere leaves a segment alone. -/
theorem segment_store_outside {heap : Heap ν} {before after : Option Addr}
    {addresses : List Addr} (segment : Segment links heap.cells before addresses after)
    {address : Addr} (outside : address ∉ addresses) (content : Option ν)
    (below : address < heap.fresh) :
    Segment links (heap.store address content below).cells before addresses after := by
  refine segment_congr (fun other member => Function.update_of_ne ?_ _ _) segment
  rintro rfl
  exact outside member

/-- Redirecting the first node's `prev` changes where the segment is entered from. -/
theorem segment_setPrev_first {before after : Option Addr} {rest : List Addr} {first : Addr}
    {node : ν} (nodup : (first :: rest).Nodup) (live : cells first = some node)
    (segment : Segment links cells before (first :: rest) after) (source : Option Addr) :
    Segment links (Function.update cells first (some (links.setPrev source node))) source
      (first :: rest) after := by
  obtain ⟨⟨actual, found, _, next⟩, tail⟩ := segment
  have same : actual = node := Option.some.inj (found.symm.trans live)
  subst same
  refine ⟨⟨_, Function.update_self .., by simp, by simpa using next⟩,
    segment_congr (fun address member => Function.update_of_ne ?_ _ _) tail⟩
  rintro rfl
  exact (List.nodup_cons.mp nodup).1 member

/-- Redirecting the last node's `next` changes where the segment leaves to. -/
theorem segment_setNext_last {before after : Option Addr} {front : List Addr} {last : Addr}
    {node : ν} (nodup : (front ++ [last]).Nodup) (live : cells last = some node)
    (segment : Segment links cells before (front ++ [last]) after) (target : Option Addr) :
    Segment links (Function.update cells last (some (links.setNext target node))) before
      (front ++ [last]) target := by
  rw [segment_append] at segment ⊢
  obtain ⟨frontSegment, ⟨⟨actual, found, prev, _⟩, _⟩⟩ := segment
  have same : actual = node := Option.some.inj (found.symm.trans live)
  subst same
  have outside : last ∉ front := fun member =>
    (List.nodup_append.mp nodup).2.2 last member last (List.mem_singleton_self _) rfl
  refine ⟨segment_congr (fun address member => Function.update_of_ne ?_ _ _) frontSegment,
    ⟨⟨_, Function.update_self .., ?_, ?_⟩, trivial⟩⟩
  · rintro rfl
    exact outside member
  · simpa using prev
  · simp

/-- The links of a node on a held list lead to its neighbours. -/
theorem Holds.neighbours {list : DList ν} {front back : List Addr} {address : Addr} {node : ν}
    (holds : Holds links list (front ++ address :: back))
    (live : list.heap.cells address = some node) :
    links.prev node = front.getLast? ∧ links.next node = back.head? := by
  have segment := holds.segment
  rw [segment_append] at segment
  obtain ⟨_, ⟨actual, found, prev, next⟩, _⟩ := segment
  have same : actual = node := Option.some.inj (found.symm.trans live)
  subst same
  rw [Option.or_none] at prev next
  exact ⟨prev, next⟩

/-- On a held list, `next` and `prev` are inverse to each other. -/
theorem Holds.next_iff_prev {list : DList ν} {addresses : List Addr} {left right : Addr}
    {leftNode rightNode : ν} (holds : Holds links list addresses)
    (leftMember : left ∈ addresses) (rightMember : right ∈ addresses)
    (leftLive : list.heap.cells left = some leftNode)
    (rightLive : list.heap.cells right = some rightNode) :
    links.next leftNode = some right ↔ links.prev rightNode = some left := by
  constructor
  · intro next
    obtain ⟨front, back, rfl⟩ := List.append_of_mem leftMember
    rw [(holds.neighbours leftLive).2, List.head?_eq_some_iff] at next
    obtain ⟨rest, rfl⟩ := next
    rw [List.append_cons] at holds
    simpa using (holds.neighbours rightLive).1
  · intro prev
    obtain ⟨front, back, rfl⟩ := List.append_of_mem rightMember
    rw [(holds.neighbours rightLive).1, List.getLast?_eq_some_iff] at prev
    obtain ⟨rest, rfl⟩ := prev
    rw [← List.append_cons] at holds
    simpa using (holds.neighbours leftLive).2

/-- The forward half of closing a gap behind `front`. -/
theorem linkForward_spec {list : DList ν} {front : List Addr} {gap : Option Addr}
    (nodup : front.Nodup) (segment : Segment links list.heap.cells none front gap)
    (after : Option Addr) :
    ∃ next, linkForward links front.getLast? after list = some next ∧
      Segment links next.heap.cells none front after ∧
      (∀ address ∉ front, next.heap.cells address = list.heap.cells address) ∧
      SameBodies links next.heap list.heap ∧
      next.head = (if front = [] then after else list.head) ∧ next.tail = list.tail := by
  rcases List.eq_nil_or_concat front with rfl | ⟨initial, last, rfl⟩
  · exact ⟨{ list with head := after }, rfl, trivial, fun _ _ => rfl, .refl _, rfl, rfl⟩
  · rw [List.concat_eq_append] at *
    obtain ⟨node, live⟩ := segment_live segment
      (List.mem_append_right initial (List.mem_singleton_self last))
    refine ⟨⟨list.heap.store last (some (links.setNext after node)) (Heap.lt_fresh live),
        list.head, list.tail⟩, ?_, segment_setNext_last nodup live segment after, ?_,
      sameBodies_store live (links.body_setNext _ _), ?_, rfl⟩
    · simp [linkForward, Heap.modify_of_live live]
    · intro address outside
      apply Function.update_of_ne
      rintro rfl
      exact outside (by simp)
    · simp

/-- The backward half of closing a gap before `back`. -/
theorem linkBackward_spec {list : DList ν} {back : List Addr} {gap : Option Addr}
    (nodup : back.Nodup) (segment : Segment links list.heap.cells gap back none)
    (before : Option Addr) :
    ∃ next, linkBackward links before back.head? list = some next ∧
      Segment links next.heap.cells before back none ∧
      (∀ address ∉ back, next.heap.cells address = list.heap.cells address) ∧
      SameBodies links next.heap list.heap ∧
      next.head = list.head ∧ next.tail = (if back = [] then before else list.tail) := by
  cases back with
  | nil => exact ⟨{ list with tail := before }, rfl, trivial, fun _ _ => rfl, .refl _, rfl, rfl⟩
  | cons first rest =>
      obtain ⟨node, live⟩ := segment_live segment List.mem_cons_self
      refine ⟨⟨list.heap.store first (some (links.setPrev before node)) (Heap.lt_fresh live),
          list.head, list.tail⟩, ?_, segment_setPrev_first nodup live segment before, ?_,
        sameBodies_store live (links.body_setPrev _ _), rfl, ?_⟩
      · simp [linkBackward, Heap.modify_of_live live]
      · intro address outside
        apply Function.update_of_ne
        rintro rfl
        exact outside List.mem_cons_self
      · simp

/-- Taking a node off a held list leaves the list without it, and the node itself
live with null links. -/
theorem unlink_holds {list : DList ν} {front back : List Addr} {address : Addr}
    (holds : Holds links list (front ++ address :: back)) :
    ∃ next, unlink links address list = some next ∧ Holds links next (front ++ back) ∧
      SameBodies links next.heap list.heap ∧
      ∃ node, next.heap.cells address = some node ∧ links.prev node = none ∧
        links.next node = none := by
  obtain ⟨nodup, headEq, tailEq, segment⟩ := holds
  rw [segment_append] at segment
  obtain ⟨frontSegment, ⟨⟨node, live, prevEq, nextEq⟩, backSegment⟩⟩ := segment
  simp only [Option.or_none] at prevEq nextEq
  obtain ⟨frontNodup, tailNodup, apart⟩ := List.nodup_append.mp nodup
  obtain ⟨notBack, backNodup⟩ := List.nodup_cons.mp tailNodup
  have notFront : address ∉ front := fun member =>
    apart address member address List.mem_cons_self rfl
  have disjoint : ∀ a ∈ front, a ∉ back := fun a inFront inBack =>
    apart a inFront a (List.mem_cons_of_mem _ inBack) rfl
  obtain ⟨middle, firstStep, middleFront, middleSame, middleBodies, middleHead, middleTail⟩ :=
    linkForward_spec frontNodup frontSegment back.head?
  have middleBack : Segment links middle.heap.cells (some address) back none :=
    segment_congr (fun a inBack => middleSame a fun inFront => disjoint a inFront inBack)
      backSegment
  obtain ⟨final, secondStep, finalBack, finalSame, finalBodies, finalHead, finalTail⟩ :=
    linkBackward_spec backNodup middleBack front.getLast?
  have finalFront : Segment links final.heap.cells none front back.head? :=
    segment_congr (fun a inFront => finalSame a (disjoint a inFront)) middleFront
  have finalLive : final.heap.cells address = some node := by
    rw [finalSame address notBack, middleSame address notFront, live]
  refine ⟨⟨final.heap.store address (some (links.setNext none (links.setPrev none node)))
      (Heap.lt_fresh finalLive), final.head, final.tail⟩, ?_,
    ⟨nodup.sublist (by simp), ?_, ?_, ?_⟩, ?_, ?_⟩
  · simp [unlink, Heap.read, live, prevEq, nextEq, firstStep, secondStep,
      Heap.modify_of_live finalLive]
  · change final.head = _
    rw [finalHead, middleHead, headEq]
    cases front <;> simp
  · change final.tail = _
    rw [finalTail, middleTail, tailEq]
    cases back with
    | nil => simp
    | cons first rest => simp [List.getLast?_append, List.getLast?_cons]
  · have joined : Segment links final.heap.cells none (front ++ back) none := by
      rw [segment_append]
      simpa using ⟨finalFront, finalBack⟩
    exact segment_store_outside joined (by simp [notFront, notBack]) _ (Heap.lt_fresh finalLive)
  · exact ((sameBodies_store finalLive (by simp)).trans finalBodies).trans middleBodies
  · exact ⟨_, Function.update_self .., by simp, by simp⟩

/-- Pushing a live node that is not on the list puts it in front. -/
theorem pushFront_holds {list : DList ν} {addresses : List Addr} {address : Addr} {node : ν}
    (holds : Holds links list addresses) (live : list.heap.cells address = some node)
    (absent : address ∉ addresses) :
    ∃ next, pushFront links address list = some next ∧
      Holds links next (address :: addresses) ∧ SameBodies links next.heap list.heap := by
  obtain ⟨nodup, headEq, tailEq, segment⟩ := holds
  let linked := list.heap.store address
    (some (links.setNext list.head (links.setPrev none node))) (Heap.lt_fresh live)
  have linkedLive : linked.cells address =
      some (links.setNext list.head (links.setPrev none node)) := Function.update_self ..
  have linkedBodies : SameBodies links linked list.heap := sameBodies_store live (by simp)
  have linkedSegment : Segment links linked.cells none addresses none :=
    segment_store_outside segment absent _ _
  cases addresses with
  | nil =>
      simp only [List.head?_nil, List.getLast?_nil] at headEq tailEq
      refine ⟨⟨linked, some address, some address⟩, ?_, ⟨by simp, rfl, rfl, ?_⟩, linkedBodies⟩
      · simp [pushFront, Heap.modify_of_live live, headEq, tailEq, linked]
      · exact ⟨⟨_, linkedLive, by simp, by simpa using headEq⟩, trivial⟩
  | cons first rest =>
      obtain ⟨firstNode, firstLive⟩ := segment_live linkedSegment List.mem_cons_self
      simp only [List.head?_cons] at headEq
      obtain ⟨last, lastEq⟩ : ∃ last, list.tail = some last := by
        rw [tailEq]
        simp [List.getLast?_cons]
      refine ⟨⟨linked.store first (some (links.setPrev (some address) firstNode))
        (Heap.lt_fresh firstLive), some address, some last⟩, ?_,
        ⟨by simpa using ⟨by simpa using absent, List.nodup_cons.mp nodup⟩, rfl, ?_, ?_⟩, ?_⟩
      · simp only [pushFront, Heap.modify_of_live live, headEq, lastEq, Option.bind_eq_bind,
          Option.bind_some]
        have first_modify := Heap.modify_of_live firstLive (links.setPrev (some address))
        simp only [linked, headEq] at first_modify ⊢
        rw [first_modify, Option.bind_some]
      · rw [← lastEq, tailEq]
        simp [List.getLast?_cons]
      · refine ⟨⟨links.setNext list.head (links.setPrev none node), ?_, ?_, ?_⟩,
          segment_setPrev_first nodup firstLive linkedSegment _⟩
        · rw [Heap.store_cells, Function.update_of_ne, linkedLive]
          rintro rfl
          exact absent List.mem_cons_self
        · simp
        · simpa using headEq
      · exact (sameBodies_store firstLive (by simp)).trans linkedBodies

end DList

/-! ## Singly linked chains -/

/-- Which field of a node is its chain link. -/
structure CLink (ν π : Type) where
  link : ν → Option Addr
  setLink : Option Addr → ν → ν
  body : ν → π
  link_setLink : ∀ target node, link (setLink target node) = target
  body_setLink : ∀ target node, body (setLink target node) = body node

attribute [simp] CLink.link_setLink CLink.body_setLink

/-- The cells hold a chain that starts at a pointer and ends with a null link. -/
def Chain (chained : CLink ν π) (cells : Addr → Option ν) : Option Addr → List Addr → Prop
  | start, [] => start = none
  | start, address :: rest =>
      start = some address ∧ ∃ node, cells address = some node ∧
        Chain chained cells (chained.link node) rest

namespace Chain

variable (chained : CLink ν π)

/-- Walk a chain to its first node that satisfies a test. `fuel` bounds the walk; the
outer `none` is a dangling pointer or an endless chain. -/
def find (test : ν → Bool) (heap : Heap ν) : (fuel : Nat) → Option Addr → Option (Option Addr)
  | 0, _ => none
  | _ + 1, none => some none
  | fuel + 1, some address => do
      let node ← heap.read address
      if test node then some (some address) else find test heap fuel (chained.link node)

/-- Walk a chain, holding a pointer to the link that was followed last (`owner` is the
node it is a field of, `none` for the head pointer), and cut the target out where it
is met. The result is the heap and the head pointer. -/
def unlink (target : Addr) :
    (fuel : Nat) → (owner current head : Option Addr) → Heap ν → Option (Heap ν × Option Addr)
  | 0, _, _, _, _ => none
  | _ + 1, _, none, head, heap => some (heap, head)
  | fuel + 1, owner, some address, head, heap => do
      let node ← heap.read address
      if address = target then
        let (heap, head) ← match owner with
          | some before => do
              let heap ← heap.modify before (chained.setLink (chained.link node))
              some (heap, head)
          | none => some (heap, chained.link node)
        let heap ← heap.modify address (chained.setLink none)
        some (heap, head)
      else unlink target fuel (some address) (chained.link node) head heap

/-- Two heaps agree on which cells are live and on everything but the chain links. -/
def SameBodies (left right : Heap ν) : Prop :=
  left.fresh = right.fresh ∧
    ∀ address, (left.cells address).map chained.body = (right.cells address).map chained.body

variable {chained} {cells : Addr → Option ν}

/-- A chain depends only on the links of the cells it runs through. -/
theorem congr {other : Addr → Option ν} {start : Option Addr} {addresses : List Addr}
    (same : ∀ address ∈ addresses,
      (other address).map chained.link = (cells address).map chained.link)
    (chain : Chain chained cells start addresses) : Chain chained other start addresses := by
  induction addresses generalizing start with
  | nil => exact chain
  | cons address rest ih =>
      obtain ⟨startEq, node, live, tail⟩ := chain
      have here := same address List.mem_cons_self
      rw [live, Option.map_some, Option.map_eq_some_iff] at here
      obtain ⟨found, foundLive, foundLink⟩ := here
      refine ⟨startEq, found, foundLive, ?_⟩
      rw [foundLink]
      exact ih (fun a member => same a (List.mem_cons_of_mem _ member)) tail

/-- The nodes of a chain are live. -/
theorem live {start : Option Addr} {addresses : List Addr}
    (chain : Chain chained cells start addresses) {address : Addr}
    (member : address ∈ addresses) : ∃ node, cells address = some node := by
  induction addresses generalizing start with
  | nil => cases member
  | cons first rest ih =>
      obtain ⟨_, node, found, tail⟩ := chain
      rcases List.mem_cons.mp member with rfl | later
      · exact ⟨node, found⟩
      · exact ih tail later

/-- A held chain is searched in order, given fuel for its length. -/
theorem find_eq {test : ν → Bool} {heap : Heap ν} {start : Option Addr} {addresses : List Addr}
    (chain : Chain chained heap.cells start addresses) {fuel : Nat}
    (enough : addresses.length < fuel) :
    find chained test heap fuel start =
      some (addresses.find? fun address => (heap.cells address).any test) := by
  induction addresses generalizing start fuel with
  | nil =>
      obtain ⟨fuel, rfl⟩ := Nat.exists_eq_succ_of_ne_zero (Nat.ne_of_gt enough)
      rw [show start = none from chain]
      rfl
  | cons address rest ih =>
      obtain ⟨fuel, rfl⟩ := Nat.exists_eq_succ_of_ne_zero (Nat.ne_of_gt (Nat.zero_lt_of_lt enough))
      obtain ⟨rfl, node, found, tail⟩ := chain
      simp only [find, Heap.read, found, Option.bind_eq_bind, Option.bind_some, List.find?_cons,
        Option.any_some]
      by_cases hit : test node = true
      · simp [hit]
      · simp only [hit, Bool.false_eq_true, ↓reduceIte]
        exact ih tail (by simpa using enough)

/-- A store that changes a link only. -/
theorem sameBodies_store {heap : Heap ν} {address : Addr} {node changed : ν}
    (found : heap.cells address = some node) (same : chained.body changed = chained.body node) :
    SameBodies chained (heap.store address (some changed) (Heap.lt_fresh found)) heap := by
  refine ⟨rfl, fun other => ?_⟩
  by_cases equal : other = address
  · subst equal
    simp [found, same]
  · simp [Function.update_of_ne equal]

theorem SameBodies.trans {first second third : Heap ν} (left : SameBodies chained first second)
    (right : SameBodies chained second third) : SameBodies chained first third :=
  ⟨left.1.trans right.1, fun address => (left.2 address).trans (right.2 address)⟩

/-- A store elsewhere leaves a chain alone. -/
theorem store_outside {heap : Heap ν} {start : Option Addr} {addresses : List Addr}
    (chain : Chain chained heap.cells start addresses) {address : Addr}
    (outside : address ∉ addresses) (content : Option ν) (below : address < heap.fresh) :
    Chain chained (heap.store address content below).cells start addresses := by
  refine congr (fun other member => ?_) chain
  rw [Heap.store_cells, Function.update_of_ne]
  rintro rfl
  exact outside member

/-- Redirecting the link of the node before a stretch redirects the chain. -/
theorem concat_redirect {heap : Heap ν} {start rest : Option Addr} {front : List Addr}
    {before : Addr} {back back' : List Addr} {node : ν}
    (chain : Chain chained heap.cells start (front ++ before :: back))
    (nodup : (front ++ [before]).Nodup) (found : heap.cells before = some node)
    (tail : Chain chained heap.cells rest back') (apart : before ∉ back') :
    Chain chained (heap.store before (some (chained.setLink rest node)) (Heap.lt_fresh found)).cells
      start (front ++ before :: back') := by
  induction front generalizing start with
  | nil =>
      obtain ⟨startEq, actual, actualFound, _⟩ := chain
      refine ⟨startEq, _, Function.update_self .., ?_⟩
      rw [chained.link_setLink]
      exact store_outside tail apart _ _
  | cons address front ih =>
      obtain ⟨startEq, actual, actualFound, rest⟩ := chain
      rw [List.cons_append, List.nodup_cons] at nodup
      refine ⟨startEq, actual, ?_, ih rest nodup.2⟩
      rw [Heap.store_cells, Function.update_of_ne, actualFound]
      rintro rfl
      exact nodup.1 (by simp)

/-- A walk that has passed `front` and stands before the target cuts exactly the target
out. -/
theorem unlink_walk {heap : Heap ν} {head : Option Addr} {target : Addr} {back : List Addr}
    (front ahead : List Addr)
    (nodup : (front ++ ahead ++ target :: back).Nodup)
    (chain : Chain chained heap.cells head (front ++ ahead ++ target :: back))
    {current : Option Addr}
    (rest : Chain chained heap.cells current (ahead ++ target :: back))
    {fuel : Nat} (enough : ahead.length < fuel) :
    ∃ next newHead,
      unlink chained target fuel front.getLast? current head heap = some (next, newHead) ∧
      Chain chained next.cells newHead (front ++ ahead ++ back) ∧
      SameBodies chained next heap ∧
      (∀ address ∉ front ++ ahead ++ [target], next.cells address = heap.cells address) := by
  induction ahead generalizing front current fuel with
  | nil =>
      obtain ⟨fuel, rfl⟩ := Nat.exists_eq_succ_of_ne_zero (Nat.ne_of_gt enough)
      simp only [List.append_nil, List.nil_append] at *
      obtain ⟨rfl, node, found, tail⟩ := rest
      obtain ⟨frontNodup, tailNodup, apart⟩ := List.nodup_append.mp nodup
      obtain ⟨notBack, backNodup⟩ := List.nodup_cons.mp tailNodup
      rcases List.eq_nil_or_concat front with rfl | ⟨initial, last, rfl⟩
      · refine ⟨heap.store target (some (chained.setLink none node)) (Heap.lt_fresh found),
          chained.link node, ?_, store_outside tail notBack _ _,
          sameBodies_store found (by simp), ?_⟩
        · simp [unlink, Heap.read, found, Heap.modify_of_live found]
        · intro address outside
          apply Function.update_of_ne
          rintro rfl
          exact outside (by simp)
      · rw [List.concat_eq_append] at *
        have differ : last ≠ target := apart last (by simp) target List.mem_cons_self
        obtain ⟨lastNode, lastFound⟩ :=
          live chain (show last ∈ initial ++ [last] ++ target :: back by simp)
        have lastNotBack : last ∉ back := fun member =>
          apart last (by simp) last (List.mem_cons_of_mem _ member) rfl
        let cut := heap.store last (some (chained.setLink (chained.link node) lastNode))
          (Heap.lt_fresh lastFound)
        have cutFound : cut.cells target = some node := by
          simp only [cut, Heap.store_cells, Function.update_of_ne (Ne.symm differ), found]
        have cutChain : Chain chained cut.cells head (initial ++ last :: back) := by
          have whole : Chain chained heap.cells head (initial ++ last :: target :: back) := by
            simpa using chain
          exact concat_redirect whole frontNodup lastFound tail lastNotBack
        have notFront : target ∉ initial ++ last :: back := by
          simp only [List.mem_append, List.mem_cons, not_or]
          refine ⟨fun member => ?_, Ne.symm differ, notBack⟩
          exact apart target (by simp [member]) target List.mem_cons_self rfl
        refine ⟨cut.store target (some (chained.setLink none node)) (Heap.lt_fresh cutFound), head,
          ?_, ?_,
          (sameBodies_store cutFound (by simp)).trans (sameBodies_store lastFound (by simp)),
          ?_⟩
        · simp [unlink, Heap.read, found, Heap.modify_of_live lastFound,
            Heap.modify_of_live cutFound, cut]
        · simpa using store_outside cutChain notFront _ (Heap.lt_fresh cutFound)
        · intro address outside
          simp only [List.mem_append, List.mem_singleton, not_or] at outside
          simp only [cut, Heap.store_cells, Function.update_of_ne outside.2,
            Function.update_of_ne outside.1.2]
  | cons address ahead ih =>
      obtain ⟨fuel, rfl⟩ := Nat.exists_eq_succ_of_ne_zero (Nat.ne_of_gt (Nat.zero_lt_of_lt enough))
      obtain ⟨rfl, node, found, tail⟩ := rest
      have differ : address ≠ target := by
        rintro rfl
        have := (List.nodup_append.mp nodup).2.2 address (by simp) address (by simp)
        exact this rfl
      have regroup : ∀ suffix : List Addr,
          front ++ address :: ahead ++ suffix = front ++ [address] ++ ahead ++ suffix := by simp
      obtain ⟨next, newHead, stepped, result⟩ := ih (front ++ [address])
        (by rw [← regroup]; exact nodup) (by rw [← regroup]; exact chain) tail
        (by simpa using enough)
      refine ⟨next, newHead, ?_, ?_⟩
      · rw [List.getLast?_append, List.getLast?_singleton, Option.some_or] at stepped
        simp [unlink, Heap.read, found, differ, stepped]
      · simpa using result

/-- Unlinking a member of a held chain leaves the chain without it. -/
theorem unlink_holds {heap : Heap ν} {head : Option Addr} {front back : List Addr} {target : Addr}
    (nodup : (front ++ target :: back).Nodup)
    (chain : Chain chained heap.cells head (front ++ target :: back))
    {fuel : Nat} (enough : front.length < fuel) :
    ∃ next newHead, unlink chained target fuel none head head heap = some (next, newHead) ∧
      Chain chained next.cells newHead (front ++ back) ∧
      SameBodies chained next heap ∧
      (∀ address ∉ front ++ [target], next.cells address = heap.cells address) := by
  simpa using unlink_walk [] front (by simpa using nodup) (by simpa using chain) chain enough

end Chain

end FizzDns
