import FizzDns.Resolver.Trail

/-!
# Referrals

Where the loop of `resolve_from` goes. `Referral.Sound` is what the authority loop of
`dissect` enforces of a referral, and `levelMoves` are the referrals that a call follows.

Below the root, every step goes strictly down towards the name. At the root it need not: the
empty string stands for the root zone and for "no zone yet", so the test that a delegation is
not for the current zone is skipped, and an NS record of the root is taken for a referral. That
is the only exception (`referrals_progress_iff`), and it is enough to lead a resolution from the
root to the root until the budget is used up (`root_delegates_to_root`).
-/

namespace FizzDns

/-! ## Labels -/

/-- The number of labels of a name. -/
def labelCount (name : Bytes) : Nat :=
  if name = [] then 0 else name.count 46 + 1

theorem count_dots_foldCase (text : Bytes) : (foldCase text).count 46 = text.count 46 := by
  induction text with
  | nil => rfl
  | cons byte rest ih => simp [List.count_cons, ih]

/-- Names that differ in case have as many dots. -/
theorem count_dots_congr {left right : Bytes} (same : foldCase left = foldCase right) :
    left.count 46 = right.count 46 := by
  rw [← count_dots_foldCase left, same, count_dots_foldCase]

/-- A zone has no more labels than a name below it, and fewer unless they are equal. -/
theorem labelCount_bailiwick {name zone : Bytes} (inside : dnsNameInBailiwick name zone = true) :
    labelCount zone ≤ labelCount name ∧
      (dnsNameEqual name zone = false → labelCount zone < labelCount name) := by
  rw [← Bool.not_eq_true, dnsNameEqual_iff]
  unfold labelCount
  rcases (dnsNameInBailiwick_iff name zone).mp inside with rfl | same | ⟨front, rest, _, rfl, same⟩
  · by_cases top : name = [] <;> simp [top]
  · have counts := count_dots_congr same
    have empty : name = [] ↔ zone = [] := by
      rw [← foldCase_eq_nil name, same, foldCase_eq_nil]
    simp [counts, empty, same]
  · have counts := count_dots_congr same
    simp only [List.append_eq_nil_iff, reduceCtorEq, and_false, ↓reduceIte, List.count_append,
      List.count_cons_self]
    split <;> omega

/-! ## What is enforced of a referral -/

/-- The zone is at or below the current one, not the current one unless that is the root, and
the name lives under it. -/
structure Delegable (qname zone owner : DnsName) : Prop where
  inside : dnsNameInBailiwick owner.chars zone.chars = true
  differs : zone.chars ≠ [] → dnsNameEqual owner.chars zone.chars = false
  covers : dnsNameInBailiwick qname.chars owner.chars = true

/-- What the authority loop enforces: a zone that was fixed can be delegated, and so can the
owner of every server, which is the fixed zone or the root. -/
structure Referral.Sound (qname zone : DnsName) (ref : Referral) : Prop where
  fixed : ref.zone.chars ≠ [] → Delegable qname zone ref.zone
  owners : ∀ candidate ∈ ref.ns, Delegable qname zone candidate.owner ∧
    (candidate.owner.chars ≠ [] → dnsNameEqual candidate.owner.chars ref.zone.chars = true)

section

variable {msg : Bytes} {len : Nat} {qname zone : DnsName} {ref : Referral} {rr : DnsRr}

/-- A server whose owner agrees with the empty zone is owned by the root. -/
private theorem equal_nil {name : Bytes} (same : dnsNameEqual name [] = true) : name = [] := by
  rw [dnsNameEqual_iff, foldCase_nil, foldCase_eq_nil] at same
  exact same

/-- The authority loop takes the record for a referral. -/
structure Admits (qname zone : DnsName) (ref : Referral) (rr : DnsRr) : Prop where
  ns : rr.type = dnsTypeNs
  room : ref.ns.length < maxNsCandidates
  delegable : Delegable qname zone rr.name
  agrees : ref.zone.chars ≠ [] → dnsNameEqual rr.name.chars ref.zone.chars = true

/-- The zone of a referral once a record was admitted. -/
def Referral.fixedBy (ref : Referral) (rr : DnsRr) : DnsName :=
  if ref.zone.chars ≠ [] then ref.zone else rr.name

/-- The server that an NS record names, if its name can be decoded. -/
def namedServer (msg : Bytes) (len : Nat) (rr : DnsRr) : List NsCandidate :=
  ((decodeName msg len rr.rdata).map fun decoded => ⟨rr.name, decoded.1, none⟩).toList

/-- An NS record that is admitted adds a candidate, and the first one fixes the zone. -/
theorem acceptNs_of_admits (admits : Admits qname zone ref rr) :
    acceptNs msg len qname zone ref rr = ⟨ref.fixedBy rr, ref.ns ++ namedServer msg len rr⟩ := by
  obtain ⟨ns, room, ⟨inside, differs, covers⟩, agrees⟩ := admits
  have few : ¬ (rr.type ≠ dnsTypeNs ∨ ref.ns.length ≥ maxNsCandidates) := by
    rintro (other | full)
    · exact other ns
    · exact absurd room (Nat.not_lt.mpr full)
  have other : ¬ (zone.chars ≠ [] ∧ dnsNameEqual rr.name.chars zone.chars = true) := by
    rintro ⟨below, same⟩
    rw [differs below] at same
    cases same
  have same : ¬ (ref.zone.chars ≠ [] ∧ dnsNameEqual rr.name.chars ref.zone.chars = false) := by
    rintro ⟨started, other⟩
    rw [agrees started] at other
    cases other
  rw [acceptNs, if_neg few, if_neg (by simp [inside]), if_neg other, if_neg (by simp [covers]),
    if_neg same]
  unfold namedServer
  cases decodeName msg len rr.rdata <;> simp [Referral.fixedBy]

/-- Any other record is passed over. -/
theorem acceptNs_of_not_admits (refused : ¬ Admits qname zone ref rr) :
    acceptNs msg len qname zone ref rr = ref := by
  unfold acceptNs
  split
  · rfl
  next few =>
  split
  · rfl
  next inside =>
  split
  · rfl
  next differs =>
  split
  · rfl
  next covers =>
  split
  · rfl
  next agrees =>
  rw [not_or, not_not, Nat.not_le] at few
  rw [Bool.not_eq_false] at inside covers
  refine absurd ⟨few.1, few.2, ⟨inside, fun below => ?_, covers⟩, fun started => ?_⟩ refused
  · exact Bool.eq_false_iff.mpr fun same => differs ⟨below, same⟩
  · exact Bool.not_eq_false _ ▸ fun other => agrees ⟨started, other⟩

/-- A candidate is owned by the name of its record. -/
theorem owner_of_namedServer {candidate : NsCandidate}
    (member : candidate ∈ namedServer msg len rr) : candidate.owner = rr.name := by
  obtain ⟨_, _, rfl⟩ := Option.map_eq_some_iff.mp (Option.mem_toList.mp member)
  rfl

/-- A turn of the authority loop keeps the referral sound. -/
theorem acceptNs_sound (sound : ref.Sound qname zone) (rr : DnsRr) :
    (acceptNs msg len qname zone ref rr).Sound qname zone := by
  by_cases admits : Admits qname zone ref rr
  · rw [acceptNs_of_admits admits]
    by_cases started : ref.zone.chars ≠ []
    · have fixed : ref.fixedBy rr = ref.zone := if_pos started
      rw [fixed]
      refine ⟨sound.fixed, fun candidate member => ?_⟩
      rcases List.mem_append.mp member with old | new
      · exact sound.owners candidate old
      · rw [owner_of_namedServer new]
        exact ⟨admits.delegable, fun _ => admits.agrees started⟩
    · have fixed : ref.fixedBy rr = rr.name := if_neg started
      rw [fixed]
      refine ⟨fun _ => admits.delegable, fun candidate member => ?_⟩
      rcases List.mem_append.mp member with old | new
      · -- as long as no zone is fixed, all servers are those of the root
        rw [not_not] at started
        obtain ⟨delegable, same⟩ := sound.owners candidate old
        rw [started] at same
        exact ⟨delegable, fun nonempty => absurd (equal_nil (same nonempty)) nonempty⟩
      · rw [owner_of_namedServer new]
        exact ⟨admits.delegable, fun _ => dnsNameEqual_self _⟩
  · rw [acceptNs_of_not_admits admits]
    exact sound

/-- Glue does not change who owns a candidate. -/
theorem owners_attachGlue (name : DnsName) (addr : Bytes) (ns : List NsCandidate) :
    (attachGlue name addr ns).map NsCandidate.owner = ns.map NsCandidate.owner := by
  induction ns with
  | nil => rfl
  | cons first rest ih =>
      unfold attachGlue
      split
      · rfl
      · rw [List.map_cons, ih, List.map_cons]

/-- Glue changes neither the zone nor whose servers there are. -/
theorem foldl_acceptGlue (records : List DnsRr) :
    (records.foldl (acceptGlue msg zone) ref).zone = ref.zone ∧
      (records.foldl (acceptGlue msg zone) ref).ns.map NsCandidate.owner =
        ref.ns.map NsCandidate.owner := by
  refine List.foldlRecOn (motive := fun after : Referral => after.zone = ref.zone ∧
    after.ns.map NsCandidate.owner = ref.ns.map NsCandidate.owner) records _ ⟨rfl, rfl⟩
    fun before same rr _ => ?_
  unfold acceptGlue
  split
  · exact same
  split
  · exact same
  · exact ⟨same.1, (owners_attachGlue _ _ _).trans same.2⟩

/-- The additional section keeps the referral sound. -/
theorem Referral.Sound.glue (sound : ref.Sound qname zone) (records : List DnsRr) :
    (records.foldl (acceptGlue msg zone) ref).Sound qname zone := by
  obtain ⟨sameZone, sameOwners⟩ := @foldl_acceptGlue msg zone ref records
  refine ⟨sameZone ▸ sound.fixed, fun candidate member => ?_⟩
  have listed := List.mem_map_of_mem (f := NsCandidate.owner) member
  rw [sameOwners] at listed
  obtain ⟨original, inside, same⟩ := List.mem_map.mp listed
  rw [sameZone, ← same]
  exact sound.owners original inside

/-- The referral of every dissected message is sound. -/
theorem dissect_sound {ansCap : Nat} {d : Dissection}
    (dissected : dissect msg len qname zone ansCap = some d) : d.ref.Sound qname zone := by
  obtain ⟨_, _, _, _, authority, _, _, _, _, _, _, rfl⟩ := dissect_eq_some_iff.mp dissected
  have start : Referral.empty.Sound qname zone :=
    ⟨fun nonempty => absurd rfl nonempty, fun _ member => by cases member⟩
  have delegated := List.foldlRecOn authority (acceptNs msg len qname zone) start
    fun _ sound rr _ => acceptNs_sound sound rr
  exact delegated.glue _

end

/-! ## Delegations of the root -/

/-- The authority section of a message that can be dissected. -/
def authoritySection (msg : Bytes) (len : Nat) : List DnsRr :=
  ((do
    let h ← dnsParseHeader msg len
    let ansStart ← skipQuestions msg len h.qdcount.toNat dnsHdrLen
    let (_, nsStart) ← parseRecords msg len h.ancount.toNat ansStart
    parseRecords msg len h.nscount.toNat nsStart).map Prod.fst).getD []

/-- An NS record that names a server of the root. -/
def isRootNs (msg : Bytes) (rr : DnsRr) : Bool :=
  rr.type = dnsTypeNs && rr.name.chars = [] && (decodeName msg msg.length rr.rdata).isSome

/-- An NS record of a zone below the root that covers the name. -/
def delegatesBelow (qname : DnsName) (rr : DnsRr) : Bool :=
  rr.type = dnsTypeNs && rr.name.chars ≠ [] && dnsNameInBailiwick qname.chars rr.name.chars

/-- The message names a server of the root, before it delegates any zone that covers the name. -/
def delegatesRoot (qname : DnsName) (msg : Bytes) : Bool :=
  ((authoritySection msg msg.length).takeWhile (!delegatesBelow qname ·)).any (isRootNs msg)

/-- Some server was taken from an NS record of the root. -/
def Referral.HasRoot (ref : Referral) : Prop :=
  ∃ candidate ∈ ref.ns, candidate.owner.chars = []

section

variable {msg : Bytes} {qname zone : DnsName} {ref : Referral} {rr : DnsRr}

/-- Whether the root is among the owners depends on the owners only. -/
theorem hasRoot_congr {other : Referral}
    (same : other.ns.map NsCandidate.owner = ref.ns.map NsCandidate.owner) :
    other.HasRoot ↔ ref.HasRoot := by
  have owners : ∀ ref : Referral,
      ref.HasRoot ↔ ∃ owner ∈ ref.ns.map NsCandidate.owner, owner.chars = [] := by
    simp [Referral.HasRoot]
  rw [owners other, same, owners ref]

/-- The root is among the owners or comes with the new candidates. -/
theorem hasRoot_append {fixed : DnsName} {more : List NsCandidate} :
    Referral.HasRoot ⟨fixed, ref.ns ++ more⟩ ↔
      ref.HasRoot ∨ ∃ candidate ∈ more, candidate.owner.chars = [] := by
  simp only [Referral.HasRoot, List.mem_append, or_and_right, exists_or]

/-- Once there, the root stays. -/
theorem Referral.HasRoot.after (has : ref.HasRoot) (records : List DnsRr) :
    (records.foldl (acceptNs msg msg.length qname zone) ref).HasRoot := by
  refine List.foldlRecOn records _ has fun ref has rr _ => ?_
  by_cases admits : Admits qname zone ref rr
  · rw [acceptNs_of_admits admits]
    exact hasRoot_append.mpr (Or.inl has)
  · rw [acceptNs_of_not_admits admits]
    exact has

/-- Once another zone is fixed, no server of the root is taken. -/
theorem not_hasRoot_after (started : ref.zone.chars ≠ []) (lacks : ¬ ref.HasRoot)
    (records : List DnsRr) :
    ¬ (records.foldl (acceptNs msg msg.length qname zone) ref).HasRoot := by
  induction records generalizing ref with
  | nil => exact lacks
  | cons rr rest ih =>
      rw [List.foldl_cons]
      by_cases admits : Admits qname zone ref rr
      · have fixed : ref.fixedBy rr = ref.zone := if_pos started
        rw [acceptNs_of_admits admits, fixed]
        refine ih started fun has => ?_
        rcases hasRoot_append.mp has with old | ⟨candidate, new, root⟩
        · exact lacks old
        · have same := admits.agrees started
          rw [← owner_of_namedServer new, root, dnsNameEqual_comm] at same
          exact started (equal_nil same)
      · rw [acceptNs_of_not_admits admits]
        exact ih started lacks

/-- At the root, a referral that has nothing yet admits every NS record that covers the name. -/
theorem admits_blank_iff (top : zone.chars = []) (unfixed : ref.zone.chars = [])
    (blank : ref.ns = []) :
    Admits qname zone ref rr ↔
      rr.type = dnsTypeNs ∧ dnsNameInBailiwick qname.chars rr.name.chars = true := by
  refine ⟨fun admits => ⟨admits.ns, admits.delegable.covers⟩, fun ⟨ns, covers⟩ => ?_⟩
  refine ⟨ns, by simp [blank, maxNsCandidates], ⟨?_, fun below => absurd top below, covers⟩,
    fun started => absurd unfixed started⟩
  exact (dnsNameInBailiwick_iff _ _).mpr (Or.inl top)

/-- At the root, a referral that has nothing yet ends up with a server of the root if and only
if one is named before a zone is delegated. -/
theorem foldl_acceptNs_hasRoot_iff (top : zone.chars = []) (unfixed : ref.zone.chars = [])
    (blank : ref.ns = []) (records : List DnsRr) :
    (records.foldl (acceptNs msg msg.length qname zone) ref).HasRoot ↔
      (records.takeWhile (!delegatesBelow qname ·)).any (isRootNs msg) = true := by
  induction records generalizing ref with
  | nil => simp [Referral.HasRoot, blank]
  | cons rr rest ih =>
      have lacks : ¬ ref.HasRoot := by simp [Referral.HasRoot, blank]
      have fixed : ref.fixedBy rr = rr.name := if_neg (not_not.mpr unfixed)
      have admits_iff := @admits_blank_iff qname zone ref rr top unfixed blank
      rw [List.foldl_cons]
      by_cases below : delegatesBelow qname rr = true
      · rw [List.takeWhile_cons_of_neg (by simp [below])]
        simp only [delegatesBelow, Bool.and_eq_true, decide_eq_true_eq] at below
        obtain ⟨⟨ns, nonempty⟩, covers⟩ := below
        rw [acceptNs_of_admits (admits_iff.mpr ⟨ns, covers⟩), fixed]
        refine iff_of_false (not_hasRoot_after nonempty ?_ rest) (by simp)
        rw [hasRoot_append]
        rintro (old | ⟨candidate, new, root⟩)
        · exact lacks old
        · rw [owner_of_namedServer new] at root
          exact nonempty root
      rw [List.takeWhile_cons_of_pos (by simp [below]), List.any_cons, Bool.or_eq_true]
      by_cases admits : Admits qname zone ref rr
      · -- an NS record of the root, as it delegates nothing below
        have root : rr.name.chars = [] := by
          obtain ⟨ns, covers⟩ := admits_iff.mp admits
          by_contra nonempty
          exact below (by simp [delegatesBelow, ns, covers, nonempty])
        rw [acceptNs_of_admits admits, fixed]
        cases decoded : decodeName msg msg.length rr.rdata with
        | none =>
            have nobody : namedServer msg msg.length rr = [] := by simp [namedServer, decoded]
            have unnamed : isRootNs msg rr = false := by simp [isRootNs, decoded]
            rw [nobody, List.append_nil, unnamed]
            simpa using @ih ⟨rr.name, ref.ns⟩ root blank
        | some server =>
            refine iff_of_true (Referral.HasRoot.after ?_ rest) (Or.inl ?_)
            · refine hasRoot_append.mpr (Or.inr ⟨⟨rr.name, server.1, none⟩, ?_, root⟩)
              simp [namedServer, decoded]
            · simp [isRootNs, admits.ns, root, decoded]
      · rw [acceptNs_of_not_admits admits, ih unfixed blank]
        have other : isRootNs msg rr = false := by
          rw [Bool.eq_false_iff]
          intro named
          simp only [isRootNs, Bool.and_eq_true, decide_eq_true_eq] at named
          exact admits (admits_iff.mpr
            ⟨named.1.1, (dnsNameInBailiwick_iff _ _).mpr (Or.inl named.1.2)⟩)
        simp [other]

/-- What a message dissected for the root refers to. -/
theorem dissect_hasRoot_iff {ansCap : Nat} {d : Dissection} (top : zone.chars = [])
    (dissected : dissect msg msg.length qname zone ansCap = some d) :
    d.ref.HasRoot ↔ delegatesRoot qname msg = true := by
  obtain ⟨h, start, records, next, authority, arStart, header, _, skipped, parsed, later, rfl⟩ :=
    dissect_eq_some_iff.mp dissected
  have section_ : authoritySection msg msg.length = authority := by
    simp [authoritySection, header, skipped, parsed, later]
  rw [delegatesRoot, section_,
    ← @foldl_acceptNs_hasRoot_iff msg qname zone Referral.empty top rfl rfl authority]
  exact hasRoot_congr (@foldl_acceptGlue msg zone _ _).2

end

/-! ## The referrals that are followed -/

/-- A step of the loop: the reply that led it from the zone that was current, and the
referral it followed. -/
structure Move where
  visit : Visit
  ref : Referral
  deriving DecidableEq

/-- A zone is below another one and differs from it. -/
def StrictlyBelow (zone parent : DnsName) : Prop :=
  dnsNameInBailiwick zone.chars parent.chars = true ∧ dnsNameEqual zone.chars parent.chars = false

/-- A step goes strictly down, towards the name, and all servers are those of the new zone. -/
structure Move.Progress (name : DnsName) (move : Move) : Prop where
  below : StrictlyBelow move.ref.zone move.visit.zone
  covers : dnsNameInBailiwick name.chars move.ref.zone.chars = true
  owners : ∀ candidate ∈ move.ref.ns,
    dnsNameEqual candidate.owner.chars move.ref.zone.chars = true

/-- A step from the root is not led by a reply that delegates the root. -/
def Move.LeavesRoot (name : DnsName) (move : Move) : Prop :=
  move.visit.zone.chars = [] → delegatesRoot name move.visit.reply = false

/-- A step follows the referral of a message that was dissected for the name in the zone it
leaves. -/
structure Move.Made (name : DnsName) (move : Move) : Prop where
  dissected : ∃ ansCap d, dissect move.visit.reply move.visit.reply.length name move.visit.zone
    ansCap = some d ∧ d.ref = move.ref
  nonempty : move.ref.ns ≠ []

/-- A step leaves the root if and only if it takes no server of the root. -/
theorem Move.Made.leavesRoot_iff {name : DnsName} {move : Move} (made : move.Made name) :
    move.LeavesRoot name ↔ (move.visit.zone.chars = [] → ¬ move.ref.HasRoot) := by
  obtain ⟨ansCap, d, dissected, same⟩ := made.dissected
  refine forall_congr' fun top => ?_
  rw [← same, dissect_hasRoot_iff top dissected, Bool.not_eq_true]

/-- A step makes progress unless a delegation of the root leads it. -/
theorem Move.Made.progress_iff {name : DnsName} {move : Move} (made : move.Made name) :
    move.Progress name ↔ move.LeavesRoot name := by
  have sound : move.ref.Sound name move.visit.zone := by
    obtain ⟨ansCap, d, dissected, same⟩ := made.dissected
    exact same ▸ dissect_sound dissected
  rw [made.leavesRoot_iff]
  constructor
  · rintro ⟨below, _, owners⟩ top ⟨candidate, member, empty⟩
    have same := owners candidate member
    rw [empty, dnsNameEqual_comm] at same
    have outside := below.2
    rw [top, same] at outside
    cases outside
  · intro leaves
    have owned : ∀ candidate ∈ move.ref.ns, candidate.owner.chars ≠ [] := by
      intro candidate member empty
      by_cases top : move.visit.zone.chars = []
      · exact leaves top ⟨candidate, member, empty⟩
      · -- below the root the empty owner is out of bailiwick
        have inside := (sound.owners candidate member).1.inside
        rw [empty, dnsNameInBailiwick_iff] at inside
        rcases inside with root | same | ⟨front, rest, _, shape, _⟩
        · exact top root
        · exact top ((foldCase_eq_nil _).mp same.symm)
        · simp at shape
    have agree : ∀ candidate ∈ move.ref.ns,
        dnsNameEqual candidate.owner.chars move.ref.zone.chars = true :=
      fun candidate member => (sound.owners candidate member).2 (owned candidate member)
    obtain ⟨first, member⟩ := List.exists_mem_of_ne_nil _ made.nonempty
    have named : move.ref.zone.chars ≠ [] := by
      intro empty
      have same := agree first member
      rw [empty] at same
      exact owned first member (equal_nil same)
    have fixed := sound.fixed named
    refine ⟨⟨fixed.inside, ?_⟩, fixed.covers, agree⟩
    by_cases top : move.visit.zone.chars = []
    · rw [top, Bool.eq_false_iff]
      exact fun same => named (equal_nil same)
    · exact fixed.differs top

section

variable {σ : Type} (ask : Ask σ) (chase : Option (DnsName → σ → Option Resolution × σ))
  (nsAddr : DnsName → σ → Option Bytes × σ) (name : DnsName) (qtype : UInt16) (ansCap : Nat)

/-- The steps that the loop of `resolve_from` takes. -/
def levelMoves : (turns : Nat) → Level → σ → List Move
  | 0, _, _ => []
  | turns + 1, level, s =>
      match levelStep ask chase nsAddr name qtype ansCap level s with
      | (.down current visit ref, s) => ⟨visit, ref⟩ :: levelMoves turns ⟨current, ref.zone⟩ s
      | _ => []

variable {ask chase nsAddr name qtype ansCap}

/-- Following a referral keeps it. -/
theorem descend_down {visit visited : Visit} {ref followed : Referral} {current : List Bytes}
    {before after : σ}
    (stepped : descend nsAddr visit ref before = (.down current visited followed, after)) :
    visited = visit ∧ followed = ref := by
  unfold descend at stepped
  simp only at stepped
  split at stepped
  · cases stepped
    exact ⟨rfl, rfl⟩
  · split at stepped
    · cases stepped
    · cases stepped
      exact ⟨rfl, rfl⟩

/-- A turn that follows a referral follows one that was read in its zone. -/
theorem levelStep_down {level : Level} {current : List Bytes} {visit : Visit} {ref : Referral}
    {before after : σ}
    (stepped : levelStep ask chase nsAddr name qtype ansCap level before =
      (.down current visit ref, after)) :
    Move.Made name ⟨visit, ref⟩ ∧ visit.zone = level.zone := by
  unfold levelStep at stepped
  split at stepped
  · cases stepped
  next d resp between tried =>
  have read := tryServers_read tried
  simp only at stepped
  split at stepped
  · cases stepped
  split at stepped
  · cases stepped
  split at stepped
  · split at stepped <;> cases stepped
  split at stepped
  · split at stepped <;> cases stepped
  next delegated =>
  obtain ⟨rfl, rfl⟩ := descend_down stepped
  exact ⟨⟨⟨ansCap, d, read.dissected, rfl⟩, delegated⟩, rfl⟩

/-- Every referral that is followed was read from a reply. -/
theorem levelMoves_made {turns : Nat} {level : Level} {s : σ} {move : Move}
    (member : move ∈ levelMoves ask chase nsAddr name qtype ansCap turns level s) :
    move.Made name := by
  induction turns generalizing level s with
  | zero => cases member
  | succ turns ih =>
      unfold levelMoves at member
      split at member
      · next stepped =>
          rcases List.mem_cons.mp member with rfl | later
          · exact (levelStep_down stepped).1
          · exact ih later
      · cases member

/-- Steps that make progress lead down label by label. -/
theorem levelMoves_descend {turns : Nat} {level : Level} {s : σ}
    (progress : ∀ move ∈ levelMoves ask chase nsAddr name qtype ansCap turns level s,
      move.Progress name) :
    List.IsChain (fun parent zone => StrictlyBelow zone parent)
      (level.zone :: (levelMoves ask chase nsAddr name qtype ansCap turns level s).map
        fun move => move.ref.zone) ∧
    (dnsNameInBailiwick name.chars level.zone.chars = true →
      labelCount level.zone.chars +
        (levelMoves ask chase nsAddr name qtype ansCap turns level s).length ≤
          labelCount name.chars) := by
  induction turns generalizing level s with
  | zero => exact ⟨List.isChain_singleton _, fun inside => (labelCount_bailiwick inside).1⟩
  | succ turns ih =>
      unfold levelMoves at progress ⊢
      split at progress
      · next current visit ref after stepped =>
          rw [List.forall_mem_cons] at progress
          obtain ⟨chain, count⟩ := ih progress.2
          have below := progress.1.below
          rw [(levelStep_down stepped).2] at below
          refine ⟨List.IsChain.cons_cons below chain, fun _ => ?_⟩
          have fewer := (labelCount_bailiwick below.1).2 below.2
          have rest := count progress.1.covers
          simp only [List.length_cons] at fewer rest ⊢
          omega
      · exact ⟨List.isChain_singleton _, fun inside => (labelCount_bailiwick inside).1⟩

end

/-- The referrals that a call of `resolve_from` follows. -/
def referrals {σ : Type} (ask : Ask σ) (roots : List Bytes) (name : DnsName) (qtype : UInt16)
    (servers : List Bytes) (ansCap nsDepth cnameHops : Nat) (s : σ) : List Move :=
  levelMoves ask
    (if cnameHops < maxCnameHops then
      some fun cname =>
        resolveFrom ask roots cname qtype roots dnsMaxAnswers nsDepth (cnameHops + 1)
    else none)
    (fun nsName => resolveNsAddr ask roots nsName nsDepth) name qtype ansCap maxReferrals
    (.first servers) s

/-- **Referral progress.** Whatever the servers reply, the referrals that a call of `resolve_from`
follows all lead strictly down, towards the name and to servers of the new zone, if and only if
no reply that is followed from the root delegates the root. In that case the zones form a
strictly descending chain of suffixes of the name, and there are at most as many referrals as
the name has labels. -/
theorem referrals_progress_iff {σ : Type} (ask : Ask σ) (roots : List Bytes) (name : DnsName)
    (qtype : UInt16) (servers : List Bytes) (ansCap nsDepth cnameHops : Nat) (s : σ) :
    ((∀ move ∈ referrals ask roots name qtype servers ansCap nsDepth cnameHops s,
        move.Progress name) ↔
      ∀ move ∈ referrals ask roots name qtype servers ansCap nsDepth cnameHops s,
        move.LeavesRoot name) ∧
    ((∀ move ∈ referrals ask roots name qtype servers ansCap nsDepth cnameHops s,
        move.LeavesRoot name) →
      List.IsChain (fun parent zone => StrictlyBelow zone parent)
        (DnsName.root :: (referrals ask roots name qtype servers ansCap nsDepth cnameHops s).map
          fun move => move.ref.zone) ∧
      (referrals ask roots name qtype servers ansCap nsDepth cnameHops s).length ≤
        labelCount name.chars) := by
  have each : ∀ move ∈ referrals ask roots name qtype servers ansCap nsDepth cnameHops s,
      (move.Progress name ↔ move.LeavesRoot name) :=
    fun _ member => (levelMoves_made member).progress_iff
  refine ⟨forall₂_congr each, fun leaves => ?_⟩
  obtain ⟨chain, count⟩ := levelMoves_descend fun move member =>
    (each move member).mpr (leaves move member)
  have bound := count ((dnsNameInBailiwick_iff _ _).mpr (Or.inl rfl))
  have none : labelCount (Level.first servers).zone.chars = 0 := rfl
  rw [none, Nat.zero_add] at bound
  exact ⟨chain, bound⟩

/-- A reply to a query for the address of "a" that refers to the server "b" of the root, with
its address. -/
def rootReferral : Bytes :=
  [0, 7, 0x80, 0, 0, 1, 0, 0, 0, 1, 0, 1, 1, 97, 0, 0, 1, 0, 1,
    0, 0, 2, 0, 1, 0, 0, 0, 60, 0, 3, 1, 98, 0,
    1, 98, 0, 0, 1, 0, 1, 0, 0, 0, 60, 0, 4, 10, 0, 0, 1]

/-- Every server gives that reply. -/
def rootReferralAsk : Ask Unit :=
  askVia fun _ _ _ _ => (⟨some 7, true, [.datagram rootReferral]⟩, ())

/-- The referrals that a call for the address of "a" follows then. -/
def rootReferrals : List Move :=
  referrals rootReferralAsk [inetNtop fun _ => 1] (DnsName.ofText [97]) dnsTypeA
    [inetNtop fun _ => 1] dnsMaxAnswers 0 0 ()

/-- The root refers to itself, and the one-label name "a" costs sixteen referrals. -/
theorem root_delegates_to_root :
    rootReferrals.map (fun move => (move.visit.zone.chars, move.ref.zone.chars)) =
        List.replicate 16 ([], []) ∧
      labelCount (DnsName.ofText [97]).chars = 1 ∧
      ¬ ∀ move ∈ rootReferrals, move.Progress (DnsName.ofText [97]) := by
  have zones : rootReferrals.map (fun move => (move.visit.zone.chars, move.ref.zone.chars)) =
      List.replicate 16 ([], []) := by decide +kernel
  refine ⟨zones, by decide, fun progress => ?_⟩
  have present : ([], []) ∈ rootReferrals.map fun move =>
      (move.visit.zone.chars, move.ref.zone.chars) := by
    rw [zones]
    exact List.mem_cons_self
  obtain ⟨move, member, same⟩ := List.mem_map.mp present
  obtain ⟨source, target⟩ := Prod.mk.inj same
  have differs := (progress move member).below.2
  rw [source, target] at differs
  cases differs

end FizzDns
