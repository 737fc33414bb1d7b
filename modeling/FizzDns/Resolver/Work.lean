import FizzDns.Foundation.Charge
import FizzDns.Resolver.Trail

/-!
# The work of one resolution

`nestedFrom` is `resolve_from` with the recursion of the source and a count of the activations
that are open. It ends because both counters of the source have a limit, whatever the servers
reply, and it computes what `resolveFrom` computes (`nestedFrom_projects`).

What one activation costs follows its loop: eight queries at each of sixteen levels, eight
addresses of name servers at each of them, and one CNAME at the end (`resolveLevels_spends`).
With the two recursive calls this is the recurrence `queryBound` (`nestedFrom_spends`).
-/

namespace FizzDns

section

variable {σ : Type} {ask : Ask σ} {charge : Charge σ}

/-- A level as the loop of `resolve_from` holds it: `current` has `MAX_NS_CANDIDATES` places for
an address in text. -/
structure Level.Fits (level : Level) : Prop where
  few : level.current.length ≤ maxNsCandidates
  short : ∀ server ∈ level.current, server.length < inetAddrstrlen

/-- A copied address has room for its terminator. -/
theorem length_copyAddr_lt (addr : Bytes) : (copyAddr addr).length < inetAddrstrlen := by
  rw [copyAddr, List.length_take, inetAddrstrlen]
  omega

/-- A query to a server whose address has a place costs one. -/
def Charge.ForAsk (charge : Charge σ) (ask : Ask σ) : Prop :=
  ∀ server name qtype, server.length < inetAddrstrlen → charge.Bounds 1 (ask server name qtype)

variable {nsAddr : DnsName → σ → Option Bytes × σ} {name : DnsName} {qtype : UInt16}
  {ansCap addrCost chaseCost : Nat}

/-- The loop over the servers asks each of them at most once. -/
theorem tryServers_spends (asking : charge.ForAsk ask) {zone : DnsName} {servers : List Bytes}
    (short : ∀ server ∈ servers, server.length < inetAddrstrlen) :
    charge.Bounds servers.length (tryServers ask name qtype zone ansCap servers) := by
  induction servers with
  | nil => exact charge.refl
  | cons server rest ih =>
      rw [List.forall_mem_cons] at short
      intro s
      have first := asking server name qtype short.1 s
      have others := charge.trans first (ih short.2 _)
      rw [Nat.add_comm, ← List.length_cons (a := server)] at others
      have enough : 1 ≤ (server :: rest).length := by simp
      rw [tryServers]
      cases replied : ask server name qtype s with
      | mk reply t =>
          rw [replied] at first others
          cases reply with
          | none => exact others
          | some resp =>
              simp only
              split
              · exact others
              · exact charge.mono enough first

/-- The loop over the candidates resolves each of them at most once. -/
theorem firstAddr_spends (resolving : ∀ nsName, charge.Bounds addrCost (nsAddr nsName))
    (candidates : List NsCandidate) :
    charge.Bounds (candidates.length * addrCost) (firstAddr nsAddr candidates) := by
  induction candidates with
  | nil => exact fun s => charge.stay _ s
  | cons candidate rest ih =>
      intro s
      have first := resolving candidate.name s
      have others := charge.trans first (ih _)
      rw [Nat.add_comm, ← Nat.succ_mul] at others
      rw [firstAddr]
      cases resolved : nsAddr candidate.name s with
      | mk addr t =>
          rw [resolved] at first others
          cases addr with
          | none => exact others
          | some addr =>
              refine charge.mono ?_ first
              rw [List.length_cons, Nat.succ_mul]
              exact Nat.le_add_left _ _

/-- Going down costs at most the addresses of all servers, and the next level fits again. -/
theorem descend_spends (resolving : ∀ nsName, charge.Bounds addrCost (nsAddr nsName))
    (visit : Visit) {ref : Referral} (few : ref.ns.length ≤ maxNsCandidates) :
    charge.Bounds (maxNsCandidates * addrCost) (descend nsAddr visit ref) := by
  intro s
  have cost := charge.mono (Nat.mul_le_mul_right addrCost few) (firstAddr_spends resolving ref.ns s)
  unfold descend
  simp only
  split
  · exact charge.stay _ s
  · cases resolved : firstAddr nsAddr ref.ns s with
    | mk addr t =>
        rw [resolved] at cost
        cases addr <;> exact cost

/-- The servers of a referral fit their array. -/
theorem descend_fits {visit visit' : Visit} {ref ref' : Referral} {current : List Bytes} {s t : σ}
    (down : descend nsAddr visit ref s = (.down current visit' ref', t)) (zone : DnsName) :
    (Level.mk current zone).Fits := by
  unfold descend at down
  simp only at down
  split at down
  · cases down
    constructor
    · rw [List.length_map, List.length_take]
      exact Nat.min_le_left _ _
    · simp only [List.mem_map, forall_exists_index, and_imp, forall_apply_eq_imp_iff₂]
      exact fun addr _ => length_copyAddr_lt addr
  · split at down
    · cases down
    · cases down
      constructor
      · simp [maxNsCandidates]
      · simpa using length_copyAddr_lt _

/-- What is spent in a turn of the loop. A CNAME is followed in the last turn only. -/
def levelCost (addrCost chaseCost : Nat) : LevelEnd → Nat
  | .down _ _ _ => maxNsCandidates + maxNsCandidates * addrCost
  | .failed | .finished _ => maxNsCandidates + maxNsCandidates * addrCost + chaseCost

/-- What one turn of the loop of `resolve_from` can spend. -/
theorem levelStep_spends (asking : charge.ForAsk ask)
    (resolving : ∀ nsName, charge.Bounds addrCost (nsAddr nsName))
    {chase : Option (DnsName → σ → Option Resolution × σ)}
    (chasing : ∀ follow ∈ chase, ∀ cname, charge.Bounds chaseCost (follow cname))
    {level : Level} (fits : level.Fits) {s t : σ} {ending : LevelEnd}
    (stepped : levelStep ask chase nsAddr name qtype ansCap level s = (ending, t)) :
    charge.spends (levelCost addrCost chaseCost ending) s t := by
  have queried := charge.mono fits.few
    (@tryServers_spends _ _ _ name qtype ansCap asking level.zone _ fits.short s)
  have stops : ∀ {cost middle}, charge.spends cost s middle →
      cost ≤ maxNsCandidates + maxNsCandidates * addrCost + chaseCost →
      (ending, t) = (LevelEnd.failed, middle) ∨
        (∃ resolution, (ending, t) = (.finished resolution, middle)) →
      charge.spends (levelCost addrCost chaseCost ending) s t := by
    rintro cost middle spent enough (same | ⟨_, same⟩) <;> cases same <;>
      exact charge.mono enough spent
  unfold levelStep at stepped
  split at stepped
  · next tried =>
    rw [tried] at queried
    exact stops queried (by omega) (.inl stepped.symm)
  next d resp between tried =>
  rw [tried] at queried
  have few := dissect_few_servers (tryServers_read tried).dissected
  simp only at stepped
  split at stepped
  · exact stops queried (by omega) (.inr ⟨_, stepped.symm⟩)
  split at stepped
  · exact stops queried (by omega) (.inr ⟨_, stepped.symm⟩)
  split at stepped
  · next follow chosen =>
    have followed : follow ∈ chase := by
      split at chosen
      · cases chosen
      · exact chosen
    have spent := charge.trans queried (chasing follow followed d.cname between)
    split at stepped
    · next failed =>
      rw [failed] at spent
      exact stops spent (by omega) (.inl stepped.symm)
    · next resolved =>
      rw [resolved] at spent
      exact stops spent (by omega) (.inr ⟨_, stepped.symm⟩)
  split at stepped
  · split at stepped
    · exact stops queried (by omega) (.inr ⟨_, stepped.symm⟩)
    · exact stops queried (by omega) (.inl stepped.symm)
  · have spent :=
      charge.trans queried (descend_spends resolving ⟨name, level.zone, resp⟩ few between)
    rw [stepped] at spent
    apply charge.mono _ spent
    cases ending <;> simp [levelCost]

/-- A turn that follows a referral leaves servers that fit. -/
theorem levelStep_fits {chase : Option (DnsName → σ → Option Resolution × σ)} {level : Level}
    {s t : σ} {current : List Bytes} {visit : Visit} {ref : Referral}
    (stepped : levelStep ask chase nsAddr name qtype ansCap level s =
      (.down current visit ref, t)) :
    (Level.mk current ref.zone).Fits := by
  unfold levelStep at stepped
  split at stepped
  · cases stepped
  simp only at stepped
  split at stepped
  · cases stepped
  split at stepped
  · cases stepped
  split at stepped
  · split at stepped <;> cases stepped
  split at stepped
  · split at stepped <;> cases stepped
  · exact descend_fits stepped _

/-- What the loop of `resolve_from` costs: every turn its servers and the addresses of the next
ones, and a CNAME once. -/
theorem resolveLevels_spends (asking : charge.ForAsk ask)
    (resolving : ∀ nsName, charge.Bounds addrCost (nsAddr nsName))
    {chase : Option (DnsName → σ → Option Resolution × σ)}
    (chasing : ∀ follow ∈ chase, ∀ cname, charge.Bounds chaseCost (follow cname))
    (turns : Nat) {level : Level} (fits : level.Fits) :
    charge.Bounds (turns * (maxNsCandidates + maxNsCandidates * addrCost) + chaseCost)
      (resolveLevels ask chase nsAddr name qtype ansCap turns level) := by
  induction turns generalizing level with
  | zero => exact fun s => charge.stay _ s
  | succ turns ih =>
      intro s
      rw [resolveLevels]
      cases stepped : levelStep ask chase nsAddr name qtype ansCap level s with
      | mk ending t =>
          have spent := levelStep_spends asking resolving chasing fits stepped
          rw [Nat.succ_mul, Nat.add_right_comm]
          cases ending with
          | failed | finished =>
              apply charge.mono _ spent
              rw [levelCost]
              omega
          | down current visit ref =>
              rw [Nat.add_comm]
              exact charge.trans spent (ih (levelStep_fits stepped) t)

end

/-- The first servers fit. -/
theorem Level.first_fits (servers : List Bytes) : (Level.first servers).Fits where
  few := by
    rw [Level.first, List.length_map, List.length_take]
    exact Nat.min_le_left _ _
  short := by
    simp only [Level.first, List.mem_map, forall_exists_index, and_imp, forall_apply_eq_imp_iff₂]
    exact fun addr _ => length_copyAddr_lt addr

/-! ## Runs on a larger state -/

/-- A computation on a larger state does the same to its part. -/
def Projects {σ τ α : Type} (part : τ → σ) (whole : τ → α × τ) (run : σ → α × σ) : Prop :=
  ∀ t, run (part t) = ((whole t).1, part (whole t).2)

section

variable {σ τ : Type} {part : τ → σ} {askWhole : Ask τ} {ask : Ask σ}
  {nsAddrWhole : DnsName → τ → Option Bytes × τ} {nsAddr : DnsName → σ → Option Bytes × σ}
  {chaseWhole : Option (DnsName → τ → Option Resolution × τ)}
  {chase : Option (DnsName → σ → Option Resolution × σ)}
  {name : DnsName} {qtype : UInt16} {ansCap : Nat}

/-- Counting does not change the loop over the servers. -/
theorem tryServers_projects
    (asks : ∀ server name qtype,
      Projects part (askWhole server name qtype) (ask server name qtype))
    (zone : DnsName) (servers : List Bytes) :
    Projects part (tryServers askWhole name qtype zone ansCap servers)
      (tryServers ask name qtype zone ansCap servers) := by
  induction servers with
  | nil => exact fun _ => rfl
  | cons server rest ih =>
      intro t
      simp only [tryServers]
      rw [asks server name qtype t]
      cases askWhole server name qtype t with
      | mk reply after =>
          cases reply with
          | none => exact ih after
          | some resp =>
              simp only
              cases dissect resp resp.length name zone ansCap with
              | none => exact ih after
              | some d => rfl

/-- Nor the loop over the candidates. -/
theorem firstAddr_projects
    (addrs : ∀ nsName, Projects part (nsAddrWhole nsName) (nsAddr nsName))
    (candidates : List NsCandidate) :
    Projects part (firstAddr nsAddrWhole candidates) (firstAddr nsAddr candidates) := by
  induction candidates with
  | nil => exact fun _ => rfl
  | cons candidate rest ih =>
      intro t
      simp only [firstAddr]
      rw [addrs candidate.name t]
      cases nsAddrWhole candidate.name t with
      | mk addr after =>
          cases addr with
          | none => exact ih after
          | some addr => rfl

theorem descend_projects
    (addrs : ∀ nsName, Projects part (nsAddrWhole nsName) (nsAddr nsName))
    (visit : Visit) (ref : Referral) :
    Projects part (descend nsAddrWhole visit ref) (descend nsAddr visit ref) := by
  intro t
  simp only [descend]
  split
  · rfl
  · rw [firstAddr_projects addrs ref.ns t]
    cases firstAddr nsAddrWhole ref.ns t with
    | mk addr after => cases addr <;> rfl

/-- Nor a turn of `resolve_from`. -/
theorem levelStep_projects
    (asks : ∀ server name qtype,
      Projects part (askWhole server name qtype) (ask server name qtype))
    (addrs : ∀ nsName, Projects part (nsAddrWhole nsName) (nsAddr nsName))
    (chases : Option.Rel (fun whole run => ∀ cname, Projects part (whole cname) (run cname))
      chaseWhole chase)
    (level : Level) :
    Projects part (levelStep askWhole chaseWhole nsAddrWhole name qtype ansCap level)
      (levelStep ask chase nsAddr name qtype ansCap level) := by
  intro t
  simp only [levelStep]
  rw [tryServers_projects asks level.zone level.current t]
  cases tryServers askWhole name qtype level.zone ansCap level.current t with
  | mk outcome after =>
      cases outcome with
      | none => rfl
      | some found =>
          simp only
          split
          · rfl
          split
          · rfl
          by_cases none : found.1.cname.chars = []
          · simp only [none, ↓reduceIte]
            split
            · split <;> rfl
            · exact descend_projects addrs _ _ after
          · simp only [none, ↓reduceIte]
            cases chases with
            | none =>
                simp only
                split
                · split <;> rfl
                · exact descend_projects addrs _ _ after
            | @some whole run same =>
                simp only
                rw [same found.1.cname after]
                cases whole found.1.cname after with
                | mk tail later => cases tail <;> rfl

/-- Nor its loop. -/
theorem resolveLevels_projects
    (asks : ∀ server name qtype,
      Projects part (askWhole server name qtype) (ask server name qtype))
    (addrs : ∀ nsName, Projects part (nsAddrWhole nsName) (nsAddr nsName))
    (chases : Option.Rel (fun whole run => ∀ cname, Projects part (whole cname) (run cname))
      chaseWhole chase)
    (turns : Nat) (level : Level) :
    Projects part (resolveLevels askWhole chaseWhole nsAddrWhole name qtype ansCap turns level)
      (resolveLevels ask chase nsAddr name qtype ansCap turns level) := by
  induction turns generalizing level with
  | zero => exact fun _ => rfl
  | succ turns ih =>
      intro t
      simp only [resolveLevels]
      rw [levelStep_projects asks addrs chases level t]
      cases levelStep askWhole chaseWhole nsAddrWhole name qtype ansCap level t with
      | mk ending after =>
          cases ending with
          | failed | finished => rfl
          | down current visit ref => exact ih _ after

end

/-! ## The recursion of the source -/

section

variable {σ : Type} (ask : Ask σ) (roots : List Bytes)

/-- Ask past the count of activations. -/
def Ask.nested : Ask (σ × Nesting) := fun server name qtype s =>
  let replied := ask server name qtype s.1
  (replied.1, replied.2, s.2)

mutual

/-- `resolve_ns_addr`, with the activations of `resolve_from` counted. -/
def nestedNsAddr (nsName : DnsName) (nsDepth : Nat) (s : σ × Nesting) :
    Option Bytes × σ × Nesting :=
  if _deep : nsDepth ≥ maxNsDepth then (none, s)
  else
    match nestedFrom nsName dnsTypeA roots dnsMaxAnswers (nsDepth + 1) 0 s with
    | (none, s) => (none, s)
    | (some resolution, s) => (firstAddress resolution.ans, s)
termination_by (maxNsDepth - nsDepth, 0)
decreasing_by exact Prod.Lex.left _ _ (by omega)

/-- `resolve_from`, with its activations counted. -/
def nestedFrom (name : DnsName) (qtype : UInt16) (servers : List Bytes) (ansCap : Nat)
    (nsDepth cnameHops : Nat) (s : σ × Nesting) : Option Resolution × σ × Nesting :=
  Nesting.call
    (resolveLevels ask.nested
      (if _more : cnameHops < maxCnameHops then
        some fun cname => nestedFrom cname qtype roots dnsMaxAnswers nsDepth (cnameHops + 1)
      else none)
      (fun nsName => nestedNsAddr nsName nsDepth) name qtype ansCap maxReferrals (.first servers))
    s
termination_by (maxNsDepth - nsDepth, maxCnameHops - cnameHops + 1)
decreasing_by
  · exact Prod.Lex.right _ (by omega)
  · exact Prod.Lex.right _ (by omega)

end

/-- Nor does it matter that calls are counted. -/
theorem Nesting.call_projects {α : Type} {body : σ × Nesting → α × σ × Nesting}
    {run : σ → α × σ} (same : Projects Prod.fst body run) :
    Projects Prod.fst (Nesting.call body) run :=
  fun s => same (s.1, s.2.enter)

/-- With the count left out, this is `resolveFrom`. -/
theorem nestedFrom_projects (name : DnsName) (qtype : UInt16) (servers : List Bytes)
    (ansCap nsDepth cnameHops : Nat) :
    Projects Prod.fst (nestedFrom ask roots name qtype servers ansCap nsDepth cnameHops)
      (resolveFrom ask roots name qtype servers ansCap nsDepth cnameHops) := by
  intro s
  rw [nestedFrom, resolveFrom_eq]
  revert s
  apply Nesting.call_projects
  apply resolveLevels_projects
  · exact fun _ _ _ _ => rfl
  · intro nsName s
    rw [nestedNsAddr, resolveNsAddr_eq]
    by_cases deep : nsDepth ≥ maxNsDepth
    · rw [dif_pos deep, if_pos deep]
    · rw [dif_neg deep, if_neg deep,
        nestedFrom_projects nsName dnsTypeA roots dnsMaxAnswers (nsDepth + 1) 0 s]
      cases nestedFrom ask roots nsName dnsTypeA roots dnsMaxAnswers (nsDepth + 1) 0 s with
      | mk resolved after => cases resolved <;> rfl
  · by_cases more : cnameHops < maxCnameHops
    · rw [dif_pos more, if_pos more]
      exact .some fun cname =>
        nestedFrom_projects cname qtype roots dnsMaxAnswers nsDepth (cnameHops + 1)
    · rw [dif_neg more, if_neg more]
      exact .none
termination_by (maxNsDepth - nsDepth, maxCnameHops - cnameHops)
decreasing_by
  · exact Prod.Lex.left _ _ (by omega)
  · exact Prod.Lex.right _ (by omega)

/-- How many queries an activation with these counters makes, with all that it calls. -/
def queryBound (nsDepth cnameHops : Nat) : Nat :=
  maxReferrals * maxNsCandidates +
    (if nsDepth < maxNsDepth then
      maxReferrals * maxNsCandidates * queryBound (nsDepth + 1) 0
    else 0) +
    (if cnameHops < maxCnameHops then queryBound nsDepth (cnameHops + 1) else 0)
termination_by (maxNsDepth - nsDepth, maxCnameHops - cnameHops)

/-- How many activations are open at a time, from an activation with these counters on. -/
def activationRoom (nsDepth cnameHops : Nat) : Nat :=
  (maxNsDepth - nsDepth) * (maxCnameHops + 1) + (maxCnameHops - cnameHops) + 1

/-- A call for the address of a name server has room for one frame less. -/
theorem activationRoom_deeper {nsDepth : Nat} (more : nsDepth < maxNsDepth) (cnameHops : Nat) :
    activationRoom (nsDepth + 1) 0 + 1 ≤ activationRoom nsDepth cnameHops := by
  simp only [activationRoom, maxNsDepth, maxCnameHops] at more ⊢
  omega

/-- So has a call for the target of a CNAME. -/
theorem activationRoom_further {cnameHops : Nat} (more : cnameHops < maxCnameHops) (nsDepth : Nat) :
    activationRoom nsDepth (cnameHops + 1) + 1 = activationRoom nsDepth cnameHops := by
  simp only [activationRoom, maxNsDepth, maxCnameHops] at more ⊢
  omega

variable {ask roots} {charge : Charge σ}

/-- A query is charged the same inside a call. -/
theorem Charge.ForAsk.nested (asking : charge.ForAsk ask) (room : Nat) :
    (charge.nested room).ForAsk ask.nested :=
  fun server name qtype short s => ⟨asking server name qtype short s.1, rfl, Nat.le_max_left _ _⟩

/-- **Work.** An activation of `resolve_from` makes no more queries and opens no more activations
than its counters leave. -/
theorem nestedFrom_spends (asking : charge.ForAsk ask) (name : DnsName) (qtype : UInt16)
    (servers : List Bytes) (ansCap nsDepth cnameHops : Nat) :
    (charge.nested (activationRoom nsDepth cnameHops)).Bounds (queryBound nsDepth cnameHops)
      (nestedFrom ask roots name qtype servers ansCap nsDepth cnameHops) := by
  obtain ⟨room, fits⟩ : ∃ room, activationRoom nsDepth cnameHops = room + 1 := ⟨_, rfl⟩
  have resolving : ∀ nsName, (charge.nested room).Bounds
      (if nsDepth < maxNsDepth then queryBound (nsDepth + 1) 0 else 0)
      (nestedNsAddr ask roots nsName nsDepth) := by
    intro nsName s
    rw [nestedNsAddr]
    by_cases deep : nsDepth ≥ maxNsDepth
    · rw [dif_pos deep]
      exact Charge.stay _ _ s
    · have more := Nat.not_le.mp deep
      have deeper := activationRoom_deeper more cnameHops
      rw [fits] at deeper
      have cost := Charge.nested_mono (Nat.le_of_succ_le_succ deeper)
        (nestedFrom_spends asking nsName dnsTypeA roots dnsMaxAnswers (nsDepth + 1) 0 s)
      rw [dif_neg deep, if_pos more]
      split
      · next failed =>
          rw [failed] at cost
          exact cost
      · next resolved =>
          rw [resolved] at cost
          exact cost
  have chasing : ∀ follow ∈
      (if _more : cnameHops < maxCnameHops then
        some fun cname =>
          nestedFrom ask roots cname qtype roots dnsMaxAnswers nsDepth (cnameHops + 1)
      else none),
      ∀ cname, (charge.nested room).Bounds
        (if cnameHops < maxCnameHops then queryBound nsDepth (cnameHops + 1) else 0)
        (follow cname) := by
    intro follow chosen cname
    by_cases more : cnameHops < maxCnameHops
    · rw [dif_pos more] at chosen
      cases chosen
      have further := activationRoom_further more nsDepth
      rw [fits] at further
      rw [if_pos more, ← Nat.succ.inj further]
      exact nestedFrom_spends asking cname qtype roots dnsMaxAnswers nsDepth (cnameHops + 1)
    · rw [dif_neg more] at chosen
      cases chosen
  intro s
  have cost := Charge.Bounds.call (@resolveLevels_spends _ _ _ _ name qtype ansCap _ _
    (asking.nested room) resolving _ chasing maxReferrals _ (Level.first_fits servers)) s
  rw [nestedFrom, queryBound, fits]
  apply Charge.mono _ _ cost
  split <;> split <;> simp only [maxReferrals, maxNsCandidates] <;> omega
termination_by (maxNsDepth - nsDepth, maxCnameHops - cnameHops)
decreasing_by
  · exact Prod.Lex.left _ _ (by omega)
  · exact Prod.Lex.right _ (by omega)

end

end FizzDns
