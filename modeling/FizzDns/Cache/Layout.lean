import FizzDns.Cache.Lru

/-!
# How the cache lies in memory

`Layout s listed hashed` says that the LRU list of a cache holds exactly the nodes
`listed`, in this order, and that the bucket chains together hold exactly the nodes
`hashed`, each once and each on the chain of its own bucket. Between two public calls
the two lists have the same nodes; inside one, a node may be on one structure and off
the other. Each function of `dns_cache.c` that touches a link has a lemma here that
gives the layout it leaves.
-/

namespace FizzDns

/-- What a node stores, links aside. -/
def entryAt (heap : Heap CacheNode) (address : Addr) : Option CacheEntry :=
  (heap.cells address).map CacheNode.toCacheEntry

/-- The nodes on the LRU list and the nodes on the bucket chains. -/
structure Layout {β : Type} (s : CacheState β) (listed hashed : List (Addr × CacheEntry)) :
    Prop where
  lru : DList.Holds lruLinks s.lru (listed.map Prod.fst)
  chained : ∀ b, ∃ chain, Chain bucketLink s.heap.cells (s.buckets b) chain ∧ chain.Nodup ∧
    ∀ address, address ∈ chain ↔ ∃ entry, (address, entry) ∈ hashed ∧ entry.home = b
  single : (hashed.map Prod.fst).Nodup
  kept : ∀ node, node ∈ listed ∨ node ∈ hashed → entryAt s.heap node.1 = some node.2

variable {β : Type} {bloom : BloomOps β} {s : CacheState β}
  {listed hashed front back : List (Addr × CacheEntry)} {node : Addr × CacheEntry}

/-! ## Frames -/

/-- Relinking the list changes no entry. -/
theorem entryAt_of_sameBodies {left right : Heap CacheNode}
    (same : DList.SameBodies lruLinks left right) (address : Addr) :
    entryAt left address = entryAt right address := by
  have bodies := congrArg (Option.map Prod.fst) (same.2 address)
  rw [Option.map_map, Option.map_map] at bodies
  exact bodies

/-- Relinking the list leaves the buckets alone. -/
theorem hnext_of_sameBodies {left right : Heap CacheNode}
    (same : DList.SameBodies lruLinks left right) (address : Addr) :
    (left.cells address).map CacheNode.hnext = (right.cells address).map CacheNode.hnext := by
  have bodies := congrArg (Option.map Prod.snd) (same.2 address)
  rw [Option.map_map, Option.map_map] at bodies
  exact bodies

/-- Relinking a bucket changes no entry. -/
theorem entryAt_of_sameChained {left right : Heap CacheNode}
    (same : Chain.SameBodies bucketLink left right) (address : Addr) :
    entryAt left address = entryAt right address := by
  have bodies := congrArg (Option.map Prod.fst) (same.2 address)
  rw [Option.map_map, Option.map_map] at bodies
  exact bodies

/-- Relinking a bucket leaves the list alone. -/
theorem links_of_sameChained {left right : Heap CacheNode}
    (same : Chain.SameBodies bucketLink left right) (address : Addr) :
    (left.cells address).map (fun node => (lruLinks.prev node, lruLinks.next node)) =
      (right.cells address).map fun node => (lruLinks.prev node, lruLinks.next node) := by
  have bodies := congrArg (Option.map Prod.snd) (same.2 address)
  rw [Option.map_map, Option.map_map] at bodies
  exact bodies

namespace Layout

/-- Nodes on the list or in a bucket are live, and hold their entries. -/
theorem live (layout : Layout s listed hashed) (member : node ∈ listed ∨ node ∈ hashed) :
    ∃ content, s.heap.cells node.1 = some content ∧ content.toCacheEntry = node.2 :=
  Option.map_eq_some_iff.mp (layout.kept node member)

/-- Their addresses have been handed out. -/
theorem address_lt (layout : Layout s listed hashed) (member : node ∈ listed ∨ node ∈ hashed) :
    node.1 < s.heap.fresh := by
  obtain ⟨content, live, _⟩ := layout.live member
  exact Heap.lt_fresh live

/-- The order inside the buckets does not matter. -/
theorem perm {others : List (Addr × CacheEntry)} (layout : Layout s listed hashed)
    (same : hashed.Perm others) : Layout s listed others where
  lru := layout.lru
  chained := by simpa only [same.mem_iff] using layout.chained
  single := ((same.map Prod.fst).nodup_iff).mp layout.single
  kept := by simpa only [same.mem_iff] using layout.kept

/-- No node is on the list twice. -/
theorem listed_single (layout : Layout s listed hashed) : (listed.map Prod.fst).Nodup :=
  layout.lru.nodup

/-- The layout does not depend on the filter, the counters or the entry count. -/
theorem of_pointers {γ : Type} {other : CacheState γ} (layout : Layout s listed hashed)
    (heap : other.heap = s.heap) (buckets : other.buckets = s.buckets)
    (head : other.lruHead = s.lruHead) (tail : other.lruTail = s.lruTail) :
    Layout other listed hashed where
  lru := by
    rw [show other.lru = s.lru by rw [CacheState.lru, heap, head, tail]; rfl]
    exact layout.lru
  chained := by rw [heap, buckets]; exact layout.chained
  single := layout.single
  kept := by rw [heap]; exact layout.kept

/-- An empty cache. -/
theorem nil (buckets : ∀ b, s.buckets b = none) (head : s.lruHead = none)
    (tail : s.lruTail = none) : Layout s [] [] where
  lru := ⟨List.nodup_nil, head, tail, trivial⟩
  chained := fun b => ⟨[], buckets b, List.nodup_nil, by simp⟩
  single := List.nodup_nil
  kept := by simp

/-- Changing LRU links only leaves the chains. -/
private theorem withLru {list : DList CacheNode} {others : List (Addr × CacheEntry)}
    (layout : Layout s listed hashed) (same : DList.SameBodies lruLinks list.heap s.heap)
    (holds : DList.Holds lruLinks list (others.map Prod.fst))
    (known : ∀ node ∈ others, node ∈ listed ∨ node ∈ hashed) :
    Layout (s.withLru list) others hashed where
  lru := holds
  chained := fun b => by
    obtain ⟨chain, holds, nodup, members⟩ := layout.chained b
    exact ⟨chain, Chain.congr (fun address _ => hnext_of_sameBodies same address) holds, nodup,
      members⟩
  single := layout.single
  kept := fun node member => by
    rw [show entryAt (s.withLru list).heap node.1 = entryAt s.heap node.1 from
      entryAt_of_sameBodies same node.1]
    exact layout.kept node (member.elim (known node) Or.inr)

/-! ## The LRU list -/

/-- `lru_unlink` takes a node off the LRU list and leaves the chains and the node's
content. -/
theorem lruUnlink (layout : Layout s (front ++ node :: back) hashed) :
    ∃ list, FizzDns.lruUnlink node.1 s = some (s.withLru list) ∧
      Layout (s.withLru list) (front ++ back) hashed ∧
      entryAt list.heap node.1 = some node.2 := by
  have holds := layout.lru
  rw [List.map_append, List.map_cons] at holds
  obtain ⟨list, unlinked, result, same, _⟩ := DList.unlink_holds holds
  rw [← List.map_append] at result
  refine ⟨list, by rw [FizzDns.lruUnlink, unlinked]; rfl, layout.withLru same result ?_, ?_⟩
  · intro other member
    left
    simp only [List.mem_append, List.mem_cons] at member ⊢
    tauto
  · rw [entryAt_of_sameBodies same]
    exact layout.kept node (Or.inl (by simp))

/-- `lru_push_front` puts a node that is on a chain at the front of the LRU list. -/
theorem lruPushFront (layout : Layout s listed hashed) (member : node ∈ hashed)
    (absent : node.1 ∉ listed.map Prod.fst) :
    ∃ list, FizzDns.lruPushFront node.1 s = some (s.withLru list) ∧
      Layout (s.withLru list) (node :: listed) hashed := by
  obtain ⟨content, live, _⟩ := layout.live (Or.inr member)
  obtain ⟨list, pushed, result, same⟩ := DList.pushFront_holds layout.lru live absent
  refine ⟨list, by rw [FizzDns.lruPushFront, pushed]; rfl,
    layout.withLru same (by simpa using result) ?_⟩
  intro other member
  rcases List.mem_cons.mp member with rfl | listed
  · exact Or.inr ‹_›
  · exact Or.inl listed

/-! ## Bucket chains -/

/-- The nodes of a chain are among the hashed ones. -/
private theorem chain_length {b : Fin cacheBuckets} {chain : List Addr} (nodup : chain.Nodup)
    (members : ∀ address, address ∈ chain ↔ ∃ entry, (address, entry) ∈ hashed ∧ entry.home = b) :
    chain.length ≤ hashed.length := by
  have subset : chain ⊆ hashed.map Prod.fst := fun address member => by
    obtain ⟨entry, hashed, _⟩ := (members address).mp member
    exact List.mem_map_of_mem hashed
  simpa using (nodup.subperm subset).length_le

/-- `bucket_find` finds the node for a key. -/
theorem bucketFind (layout : Layout s listed hashed) (bounded : hashed.length ≤ cacheCapacity)
    (distinct : (hashed.map fun node => node.2.key).Nodup) (name : Bytes) (qtype : UInt16) :
    FizzDns.bucketFind (dnsKeyHash name qtype) name qtype s =
      some ((hashed.find? fun node => node.2.key = cacheKey name qtype).map Prod.fst) := by
  obtain ⟨chain, holds, nodup, members⟩ := layout.chained (bucketOf (dnsKeyHash name qtype))
  have short : chain.length < walkFuel :=
    Nat.lt_succ_of_le ((chain_length nodup members).trans bounded)
  rw [FizzDns.bucketFind, Chain.find_eq holds short]
  -- what the walk tests at an address is the key of the entry hashed there
  have tested : ∀ {address : Addr} {entry : CacheEntry}, (address, entry) ∈ hashed →
      ((s.heap.cells address).any (fun node => node.isFor name qtype) = true ↔
        entry.key = cacheKey name qtype) := by
    intro address entry member
    obtain ⟨content, live, rfl⟩ := layout.live (Or.inr member)
    rw [live, Option.any_some, CacheEntry.isFor_iff]
  congr 1
  cases found : hashed.find? fun node => node.2.key = cacheKey name qtype with
  | none =>
      rw [Option.map_none, List.find?_eq_none]
      intro address member matched
      obtain ⟨entry, hashed, _⟩ := (members address).mp member
      have differ := List.find?_eq_none.mp found _ hashed
      simp only [decide_eq_true_eq] at differ
      exact differ ((tested hashed).mp matched)
  | some node =>
      have member := List.mem_of_find?_eq_some found
      have same : node.2.key = cacheKey name qtype := by simpa using List.find?_some found
      have onChain := (members node.1).mpr ⟨node.2, member, CacheEntry.home_of_key same⟩
      cases walked : chain.find? fun address =>
          (s.heap.cells address).any fun node => node.isFor name qtype with
      | none => exact absurd ((tested member).mpr same) (List.find?_eq_none.mp walked _ onChain)
      | some address =>
          obtain ⟨entry, hashed, _⟩ := (members address).mp (List.mem_of_find?_eq_some walked)
          have hit := List.find?_some walked
          have matched := (tested hashed).mp hit
          have equal := List.inj_on_of_nodup_map distinct hashed member (matched.trans same.symm)
          rw [Option.map_some, ← equal]

private theorem mem_cut {before after : List Addr} {cut : Addr}
    (nodup : (before ++ cut :: after).Nodup) (address : Addr) :
    address ∈ before ++ after ↔ address ∈ before ++ cut :: after ∧ address ≠ cut := by
  have gone := (List.nodup_cons.mp (List.nodup_middle.mp nodup)).1
  constructor
  · refine fun member => ⟨by simp only [List.mem_append, List.mem_cons] at *; tauto, ?_⟩
    rintro rfl
    exact gone member
  · simp only [List.mem_append, List.mem_cons]
    tauto

/-- Dropping a node from the hashed ones drops its address. -/
private theorem mem_rest (single : ((node :: hashed).map Prod.fst).Nodup) (address : Addr)
    (entry : CacheEntry) :
    (address, entry) ∈ hashed ↔ (address, entry) ∈ node :: hashed ∧ address ≠ node.1 := by
  have gone := (List.nodup_cons.mp single).1
  constructor
  · refine fun member => ⟨List.mem_cons_of_mem _ member, ?_⟩
    intro same
    exact gone (same ▸ List.mem_map_of_mem (f := Prod.fst) member)
  · rintro ⟨member, differ⟩
    rcases List.mem_cons.mp member with rfl | rest
    · exact absurd rfl differ
    · exact rest

/-- `bucket_unlink` takes a node off its chain and leaves the LRU list. -/
theorem bucketUnlink (layout : Layout s listed (node :: hashed))
    (bounded : (node :: hashed).length ≤ cacheCapacity) :
    ∃ heap buckets,
      FizzDns.bucketUnlink node.1 s = some { s with heap := heap, buckets := buckets } ∧
      Layout { s with heap := heap, buckets := buckets } listed hashed := by
  obtain ⟨content, live, stored⟩ := layout.live (Or.inr (show node ∈ node :: hashed by simp))
  obtain ⟨chain, holds, nodup, members⟩ := layout.chained node.2.home
  have onChain : node.1 ∈ chain := (members node.1).mpr ⟨node.2, List.mem_cons_self, rfl⟩
  have short : chain.length ≤ cacheCapacity := (chain_length nodup members).trans bounded
  obtain ⟨before, after, rfl⟩ := List.append_of_mem onChain
  have enough : before.length < walkFuel := by
    simp only [List.length_append, walkFuel] at *
    omega
  obtain ⟨heap, head, unlinked, result, same, frame⟩ := Chain.unlink_holds nodup holds enough
  refine ⟨heap, Function.update s.buckets node.2.home head, ?_, ⟨?_, fun b => ?_, ?_, ?_⟩⟩
  · have home : bucketOf (dnsKeyHash content.name.chars content.qtype) = node.2.home := by
      rw [← stored]
      rfl
    simp [FizzDns.bucketUnlink, Heap.read, live, home, unlinked]
  · exact ⟨layout.lru.nodup, layout.lru.head_eq, layout.lru.tail_eq,
      DList.segment_congr_links (fun address _ => links_of_sameChained same address)
        layout.lru.segment⟩
  · by_cases here : b = node.2.home
    · subst here
      refine ⟨before ++ after, by simpa using result, nodup.sublist (by simp), fun address => ?_⟩
      rw [mem_cut nodup, members]
      simp only [mem_rest layout.single]
      constructor
      · rintro ⟨⟨entry, member, home⟩, differ⟩
        exact ⟨entry, ⟨member, differ⟩, home⟩
      · rintro ⟨entry, ⟨member, differ⟩, home⟩
        exact ⟨⟨entry, member, home⟩, differ⟩
    · -- a node is on one chain only, so the other chains were not written to
      obtain ⟨chain, otherHolds, otherNodup, otherMembers⟩ := layout.chained b
      have outside : ∀ address ∈ chain, address ∉ before ++ node.1 :: after := by
        intro address member inside
        obtain ⟨entry, hashed, home⟩ := (otherMembers address).mp member
        obtain ⟨entry', hashed', home'⟩ := (members address).mp inside
        have equal := List.inj_on_of_nodup_map layout.single hashed hashed' rfl
        rw [← home, (Prod.mk.inj equal).2] at here
        exact here home'
      refine ⟨chain, ?_, otherNodup, fun address => ?_⟩
      · simp only [Function.update_of_ne here]
        refine Chain.congr (fun address member => ?_) otherHolds
        rw [frame address fun inside => outside address member (by
          simp only [List.mem_append, List.mem_cons, List.not_mem_nil, or_false] at *; tauto)]
      · rw [otherMembers]
        refine exists_congr fun entry => and_congr_left fun home => ?_
        rw [mem_rest layout.single, iff_self_and]
        rintro member rfl
        exact outside node.1 ((otherMembers node.1).mpr ⟨entry, member, home⟩) onChain
  · exact (List.nodup_cons.mp layout.single).2
  · intro other member
    rw [entryAt_of_sameChained same]
    exact layout.kept other (member.imp_right (List.mem_cons_of_mem _))

/-! ## Nodes -/

/-- Freeing a node that is on neither structure. -/
theorem free (layout : Layout s listed hashed) {address : Addr} {content : CacheNode}
    (live : s.heap.cells address = some content) (offList : address ∉ listed.map Prod.fst)
    (offChains : address ∉ hashed.map Prod.fst) :
    ∃ heap, s.heap.free address = some heap ∧ Layout { s with heap := heap } listed hashed := by
  refine ⟨_, Heap.free_of_live live, ⟨layout.lru.nodup, layout.lru.head_eq, layout.lru.tail_eq,
    DList.segment_store_outside layout.lru.segment offList _ (Heap.lt_fresh live)⟩, fun b => ?_,
    layout.single, fun node member => ?_⟩
  · obtain ⟨chain, holds, nodup, members⟩ := layout.chained b
    refine ⟨chain, Chain.store_outside holds (fun member => ?_) _ (Heap.lt_fresh live), nodup,
      members⟩
    obtain ⟨entry, hashed, _⟩ := (members address).mp member
    exact offChains (List.mem_map_of_mem (f := Prod.fst) hashed)
  · have differ : node.1 ≠ address := by
      rintro rfl
      exact member.elim (fun inList => offList (List.mem_map_of_mem inList))
        fun inChains => offChains (List.mem_map_of_mem inChains)
    rw [entryAt, Heap.store_cells, Function.update_of_ne differ]
    exact layout.kept node member

/-- `node_destroy` takes a node off both structures, frees it and tells the filter. -/
theorem nodeDestroy (bloom : BloomOps β)
    (layout : Layout s (front ++ node :: back) (front ++ node :: back))
    (bounded : (front ++ node :: back).length ≤ cacheCapacity) :
    ∃ next, FizzDns.nodeDestroy bloom node.1 s = some next ∧
      Layout next (front ++ back) (front ++ back) ∧
      next.entryCount = sizeSub s.entryCount 1 ∧
      next.bloom = bloom.del node.2.name.chars node.2.qtype s.bloom ∧ next.stats = s.stats := by
  obtain ⟨content, live, stored⟩ := layout.live
    (Or.inl (show node ∈ front ++ node :: back by simp))
  have gone : node.1 ∉ (front ++ back).map Prod.fst := by
    have single := layout.single
    rw [List.map_append, List.map_cons] at single
    rw [List.map_append]
    exact (List.nodup_cons.mp (List.nodup_middle.mp single)).1
  let told : CacheState β := { s with bloom := bloom.del node.2.name.chars node.2.qtype s.bloom }
  have toldLayout : Layout told (front ++ node :: back) (front ++ node :: back) :=
    layout.of_pointers rfl rfl rfl rfl
  obtain ⟨heap, buckets, unchained, offChain⟩ := (toldLayout.perm List.perm_middle).bucketUnlink
    (by simpa [Nat.add_assoc] using bounded)
  obtain ⟨list, unlisted, offBoth, still⟩ := offChain.lruUnlink
  obtain ⟨lastContent, lastLive, _⟩ := Option.map_eq_some_iff.mp still
  obtain ⟨freed, released, final⟩ := offBoth.free lastLive gone gone
  refine ⟨⟨freed, buckets, list.head, list.tail, sizeSub s.entryCount 1,
    bloom.del node.2.name.chars node.2.qtype s.bloom, s.stats⟩, ?_,
    final.of_pointers rfl rfl rfl rfl, rfl, rfl, rfl⟩
  simp only [FizzDns.nodeDestroy, Heap.read, live, stored, Option.bind_eq_bind, Option.bind_some]
  rw [show FizzDns.bucketUnlink node.1 told = _ from unchained, Option.bind_some, unlisted,
    Option.bind_some, show (CacheState.withLru _ list).heap.free node.1 = some freed from released]
  rfl

/-- A new node is on the chain of its bucket and not on the LRU list. -/
theorem linkNewNode (bloom : BloomOps β) (layout : Layout s listed hashed) {name : CString}
    (fits : name.chars.length ≤ dnsMaxName) (qtype : UInt16) :
    Layout (FizzDns.linkNewNode bloom (dnsKeyHash name.chars qtype) name qtype s) listed
      ((s.heap.fresh, LruCache.blank name qtype) :: hashed) := by
  have older : ∀ node, node ∈ listed ∨ node ∈ hashed → node.1 ≠ s.heap.fresh :=
    fun node member => Nat.ne_of_lt (layout.address_lt member)
  have home : (LruCache.blank name qtype).home = bucketOf (dnsKeyHash name.chars qtype) :=
    CacheEntry.home_of_key (LruCache.blank_key fits qtype)
  refine ⟨⟨layout.lru.nodup, layout.lru.head_eq, layout.lru.tail_eq,
    DList.segment_congr (fun address member => ?_) layout.lru.segment⟩, fun b => ?_, ?_, ?_⟩
  · obtain ⟨node, listed, rfl⟩ := List.mem_map.mp member
    exact Function.update_of_ne (older node (Or.inl listed)) _ _
  · obtain ⟨chain, holds, nodup, members⟩ := layout.chained b
    have notFresh : ∀ address ∈ chain, address ≠ s.heap.fresh := fun address member => by
      obtain ⟨entry, hashed, _⟩ := (members address).mp member
      exact older _ (Or.inr hashed)
    have kept : Chain bucketLink
        (FizzDns.linkNewNode bloom (dnsKeyHash name.chars qtype) name qtype s).heap.cells
        (s.buckets b) chain :=
      Chain.congr (fun address member => by
        rw [FizzDns.linkNewNode, Heap.alloc_cells, Function.update_of_ne (notFresh address member)])
        holds
    by_cases here : b = bucketOf (dnsKeyHash name.chars qtype)
    · subst here
      refine ⟨s.heap.fresh :: chain, ⟨Function.update_self .., _, Function.update_self .., kept⟩,
        List.nodup_cons.mpr ⟨fun member => notFresh _ member rfl, nodup⟩, fun address => ?_⟩
      rw [List.mem_cons, members]
      constructor
      · rintro (rfl | ⟨entry, member, same⟩)
        · exact ⟨_, List.mem_cons_self, home⟩
        · exact ⟨entry, List.mem_cons_of_mem _ member, same⟩
      · rintro ⟨entry, member, same⟩
        rcases List.mem_cons.mp member with equal | hashed
        · exact Or.inl (Prod.mk.inj equal).1
        · exact Or.inr ⟨entry, hashed, same⟩
    · refine ⟨chain, ?_, nodup, fun address => ?_⟩
      · rw [show (FizzDns.linkNewNode bloom (dnsKeyHash name.chars qtype) name qtype s).buckets b =
          s.buckets b from Function.update_of_ne here _ _]
        exact kept
      · rw [members]
        refine exists_congr fun entry => and_congr_left fun same => ?_
        rw [List.mem_cons, or_iff_right]
        intro equal
        rw [(Prod.mk.inj equal).2, home] at same
        exact here same.symm
  · refine List.nodup_cons.mpr ⟨fun member => ?_, layout.single⟩
    obtain ⟨node, hashed, same⟩ := List.mem_map.mp member
    exact older node (Or.inr hashed) same
  · intro node member
    rw [List.mem_cons, or_left_comm] at member
    rcases member with rfl | member
    · exact congrArg _ (Function.update_self ..)
    · rw [entryAt, FizzDns.linkNewNode, Heap.alloc_cells, Function.update_of_ne (older node member)]
      exact layout.kept node member

/-- Filling a node that is off the LRU list and pushing it to the front. -/
theorem fillNode (layout : Layout s listed (node :: hashed)) (absent : node.1 ∉ listed.map Prod.fst)
    (ans : List DnsAnswer) (rcode : Nat) (expires : Int) :
    ∃ next, FizzDns.fillNode node.1 ans rcode expires s = some next ∧
      Layout next
        ((node.1, { node.2 with ans := ans, rcode := rcode, expires := expires }) :: listed)
        ((node.1, { node.2 with ans := ans, rcode := rcode, expires := expires }) :: hashed) ∧
      next.entryCount = s.entryCount ∧ next.bloom = s.bloom ∧ next.stats = s.stats := by
  obtain ⟨content, live, stored⟩ := layout.live (Or.inr (show node ∈ node :: hashed by simp))
  let filled : CacheNode := { content with ans := ans, rcode := rcode, expires := expires }
  let heap := s.heap.store node.1 (some filled) (Heap.lt_fresh live)
  have written : s.heap.modify node.1
      (fun node => { node with ans := ans, rcode := rcode, expires := expires }) = some heap :=
    Heap.modify_of_live live _
  have middle : Layout { s with heap := heap } listed
      ((node.1, { node.2 with ans := ans, rcode := rcode, expires := expires }) :: hashed) := by
    refine ⟨⟨layout.lru.nodup, layout.lru.head_eq, layout.lru.tail_eq,
      DList.segment_store_outside layout.lru.segment absent _ (Heap.lt_fresh live)⟩, fun b => ?_,
      layout.single, fun other member => ?_⟩
    · obtain ⟨chain, holds, nodup, members⟩ := layout.chained b
      refine ⟨chain, Chain.congr (fun address _ => ?_) holds, nodup, fun address => ?_⟩
      · by_cases here : address = node.1
        · subst here
          simp only [heap, Heap.store_cells, Function.update_self, live, Option.map_some]
          rfl
        · simp only [heap, Heap.store_cells, Function.update_of_ne here]
      · rw [members]
        -- filling keeps the key, hence the bucket
        simp only [List.mem_cons, Prod.ext_iff]
        constructor
        · rintro ⟨entry, ⟨rfl, rfl⟩ | member, home⟩
          · exact ⟨_, Or.inl ⟨rfl, rfl⟩, home⟩
          · exact ⟨entry, Or.inr member, home⟩
        · rintro ⟨entry, ⟨rfl, rfl⟩ | member, home⟩
          · exact ⟨node.2, Or.inl ⟨rfl, rfl⟩, home⟩
          · exact ⟨entry, Or.inr member, home⟩
    · rw [List.mem_cons, or_left_comm] at member
      rcases member with rfl | member
      · simp only [entryAt, heap, Heap.store_cells, Function.update_self, Option.map_some, filled,
          ← stored]
      · have differ : other.1 ≠ node.1 := by
          intro same
          rcases member with inList | inChains
          · exact absent (same ▸ List.mem_map_of_mem (f := Prod.fst) inList)
          · exact (List.nodup_cons.mp layout.single).1
              (same ▸ List.mem_map_of_mem (f := Prod.fst) inChains)
        rw [entryAt, Heap.store_cells, Function.update_of_ne differ]
        exact layout.kept other (member.imp_right (List.mem_cons_of_mem _))
  obtain ⟨list, pushed, final⟩ := middle.lruPushFront List.mem_cons_self absent
  refine ⟨_, ?_, final, rfl, rfl, rfl⟩
  rw [FizzDns.fillNode, written, Option.bind_eq_bind, Option.bind_some]
  exact pushed

/-! ## Eviction and disposal -/

/-- The scan of `evict_one` sees the nodes from the tail on. -/
private theorem evictScan_eq {heap : Heap CacheNode} {after : Option Addr} (now : Int) (left : Nat)
    (segment : DList.Segment lruLinks heap.cells none (listed.map Prod.fst) after)
    (kept : ∀ node ∈ listed, entryAt heap node.1 = some node.2) :
    evictScan now heap left (listed.map Prod.fst).getLast? =
      some (((listed.reverse.take left).find? fun node => node.2.expires ≤ now).map Prod.fst) := by
  induction left generalizing listed after with
  | zero => rfl
  | succ left ih =>
      rcases List.eq_nil_or_concat listed with rfl | ⟨initial, last, rfl⟩
      · rfl
      · rw [List.concat_eq_append] at *
        rw [List.map_append, List.map_singleton, DList.segment_append] at segment
        obtain ⟨towardsHead, ⟨content, live, prev, _⟩, _⟩ := segment
        have stored := kept last (by simp)
        rw [entryAt, live, Option.map_some, Option.some_inj] at stored
        rw [List.map_append, List.map_singleton, List.getLast?_append, List.getLast?_singleton,
          Option.some_or, List.reverse_append, List.reverse_singleton, List.singleton_append,
          List.take_succ_cons, List.find?_cons]
        simp only [evictScan, Heap.read, live, Option.bind_eq_bind, Option.bind_some]
        by_cases expired : content.expires ≤ now
        · have same : last.2.expires ≤ now := by rwa [← stored]
          simp [expired, same]
        · have same : ¬ last.2.expires ≤ now := by rwa [← stored]
          have next : content.prev = (initial.map Prod.fst).getLast? := by
            rw [Option.or_none] at prev
            exact prev
          simp only [expired, same, if_false, decide_false, next]
          exact ih towardsHead fun node member => kept node (by simp [member])

/-- `evict_one` destroys the victim that the LRU order determines. -/
theorem evictOne (bloom : BloomOps β) {order : List (Addr × CacheEntry)}
    (layout : Layout s order order)
    (bounded : order.length ≤ cacheCapacity) (nonempty : order ≠ []) (now : Int) :
    ∃ front node back next, order = front ++ node :: back ∧
      LruCache.victim now (order.map Prod.snd) = some node.2 ∧
      FizzDns.evictOne bloom now s = some next ∧ Layout next (front ++ back) (front ++ back) ∧
      next.entryCount = sizeSub s.entryCount 1 ∧
      next.bloom = bloom.del node.2.name.chars node.2.qtype s.bloom := by
  have segment : DList.Segment lruLinks s.heap.cells none (order.map Prod.fst) none :=
    layout.lru.segment
  have scanned := evictScan_eq now 8 segment fun node member => layout.kept node (Or.inl member)
  let chosen := ((order.reverse.take 8).find? fun node => node.2.expires ≤ now).or order.getLast?
  have named : chosen.map Prod.snd = LruCache.victim now (order.map Prod.snd) := by
    rw [LruCache.victim, ← List.map_reverse, ← List.map_take, List.find?_map, List.getLast?_map,
      Option.map_or]
    rfl
  obtain ⟨entry, victim⟩ := LruCache.exists_victim now
    (show order.map Prod.snd ≠ [] by simpa using nonempty)
  rw [victim, Option.map_eq_some_iff] at named
  obtain ⟨node, chosenNode, rfl⟩ := named
  have member : node ∈ order := by
    rcases Option.or_eq_some_iff.mp chosenNode with near | ⟨_, last⟩
    · exact List.mem_reverse.mp (List.mem_of_mem_take (List.mem_of_find?_eq_some near))
    · exact List.mem_of_getLast? last
  obtain ⟨front, back, rfl⟩ := List.append_of_mem member
  obtain ⟨next, destroyed, final, count, filter, _⟩ := layout.nodeDestroy bloom bounded
  refine ⟨front, node, back, next.evicted, rfl, victim, ?_, final.of_pointers rfl rfl rfl rfl,
    count, filter⟩
  have tail : s.lruTail = ((front ++ node :: back).map Prod.fst).getLast? := layout.lru.tail_eq
  have target : (((front ++ node :: back).reverse.take 8).find?
      (fun node => node.2.expires ≤ now) |>.map Prod.fst).or s.lruTail = some node.1 := by
    rw [tail, List.getLast?_map, ← Option.map_or]
    exact congrArg (Option.map Prod.fst) chosenNode
  rw [FizzDns.evictOne, tail, scanned, ← tail, Option.bind_eq_bind, Option.bind_some, target]
  simp only [destroyed, Option.bind_eq_bind, Option.bind_some]

/-- `dns_cache_fini` frees the listed nodes one by one. -/
theorem freeAll {heap : Heap CacheNode} {before : Option Addr} {addresses : List Addr}
    (nodup : addresses.Nodup)
    (segment : DList.Segment lruLinks heap.cells before addresses none) {fuel : Nat}
    (enough : addresses.length < fuel) :
    ∃ next, FizzDns.freeAll fuel addresses.head? heap = some next := by
  induction addresses generalizing heap before fuel with
  | nil =>
      obtain ⟨fuel, rfl⟩ := Nat.exists_eq_succ_of_ne_zero (Nat.ne_of_gt enough)
      exact ⟨heap, rfl⟩
  | cons address rest ih =>
      obtain ⟨fuel, rfl⟩ := Nat.exists_eq_succ_of_ne_zero (Nat.ne_of_gt (Nat.zero_lt_of_lt enough))
      obtain ⟨⟨content, live, _, next⟩, tail⟩ := segment
      obtain ⟨notRest, restNodup⟩ := List.nodup_cons.mp nodup
      have after : content.next = rest.head? := by
        rw [Option.or_none] at next
        exact next
      obtain ⟨final, freed⟩ := ih restNodup
        (DList.segment_store_outside tail notRest none (Heap.lt_fresh live)) (by simpa using enough)
      refine ⟨final, ?_⟩
      simp only [List.head?_cons, FizzDns.freeAll, Heap.read, live, Heap.free_of_live live,
        Option.bind_eq_bind, Option.bind_some, after]
      exact freed

end Layout

end FizzDns
