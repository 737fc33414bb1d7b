import FizzDns.Cache.Linearizable

/-!
# No lookup returns what has been replaced

What a hit says about the puts, for every history that threads can make with the cache: it returns
the answers of a put of the same key, and no other put of that key lies wholly between the end of
that put and the start of the lookup.

Calls are told apart by their positions in the history. `Explained` is the invariant: what the map
stores for a key was put by a call such that every put of the key that started after its return has
not taken effect yet.
-/

namespace FizzDns

open Linearizability

/-- A call that stores something for a key. -/
def CacheCall.Stores (key : CacheKey) (stored : Stored) : CacheCall → Prop
  | .put name qtype ans rcode now _ =>
      cacheKey name.chars qtype = key ∧ Stored.of ans rcode now = stored
  | .get _ _ _ _ => False

section OnMap

variable {call : CacheCall} {before after : CacheMap} {result : Option CacheHit}

/-- What a call leaves in the map was stored by it, or was there and not for the key of a put. -/
theorem CacheCall.onMap_eq_some (answers : call.onMap before = (result, after)) {key : CacheKey}
    {stored : Stored} (found : after key = some stored) :
    call.Stores key stored ∨ before key = some stored ∧ ∀ other, ¬ call.Stores key other := by
  cases call with
  | get name qtype cap now =>
      refine .inr ⟨?_, fun _ => id⟩
      simp only [onMap] at answers
      split at answers
      · cases answers
        exact found
      · split at answers
        · cases answers
          by_cases same : key = cacheKey name.chars qtype
          · rw [same, Function.update_self] at found
            cases found
          · rwa [Function.update_of_ne same] at found
        · cases answers
          exact found
  | put name qtype ans rcode now allocates =>
      simp only [onMap] at answers
      split at answers
      · cases answers
        by_cases same : key = cacheKey name.chars qtype
        · rw [same, Function.update_self] at found
          exact .inl ⟨same.symm, Option.some.inj found⟩
        · rw [Function.update_of_ne same] at found
          exact .inr ⟨found, fun other stores => same stores.1.symm⟩
      · next lost =>
          cases answers
          refine .inr ⟨found, fun other stores => lost ?_⟩
          rw [stores.1, found, Option.isSome_some, Bool.or_true]

/-- A hit serves what the map stores for the key of the lookup and has not expired. -/
theorem CacheCall.onMap_hit {hit : CacheHit} (answers : call.onMap before = (some hit, after)) :
    ∃ name qtype cap now stored, call = .get name qtype cap now ∧
      before (cacheKey name.chars qtype) = some stored ∧ now < stored.expires ∧
      hit = stored.serve cap now := by
  cases call with
  | get name qtype cap now =>
      simp only [onMap] at answers
      split at answers
      · cases answers
      · next stored found =>
          split at answers
          · cases answers
          · next live =>
              cases answers
              exact ⟨name, qtype, cap, now, stored, rfl, found, Int.not_le.mp live, rfl⟩
  | put name qtype ans rcode now allocates =>
      simp only [onMap] at answers
      split at answers <;> cases answers

end OnMap

variable {ι : Type} [DecidableEq ι]

/-- A put of the key that starts after the return of the call at `source` has returned before
`position`. -/
def Superseded (history : List (Action ι CacheCall (Option CacheHit))) (key : CacheKey)
    (client : ι) (source position : Nat) : Prop :=
  ∃ later writer call stored, history[later]? = some (.call writer call) ∧
    call.Stores key stored ∧ ReturnsBetween history client source later ∧
    ReturnsBetween history writer later position

/-- The lookup that a client is in at the end of a history gets the answers of a put of its key:
they have not expired at the clock reading of the lookup, and the put is not superseded by one that
started after it had returned and that itself had returned before the lookup started. -/
def ServesLastPut (history : List (Action ι CacheCall (Option CacheHit))) (client : ι)
    (hit : CacheHit) : Prop :=
  ∃ position name qtype cap now,
    history[position]? = some (.call client (.get name qtype cap now)) ∧
    Quiet history client position ∧
    ∃ source writer call stored, history[source]? = some (.call writer call) ∧
      call.Stores (cacheKey name.chars qtype) stored ∧ now < stored.expires ∧
      hit = stored.serve cap now ∧
      ¬ Superseded history (cacheKey name.chars qtype) writer source position

/-- What the map and its clients have to do with the history. -/
structure Explained (history : List (Action ι CacheCall (Option CacheHit)))
    (shared : Shared CacheMap ι CacheCall (Option CacheHit)) : Prop where
  pending : ∀ {client call}, shared.clients client = .pending call →
    ∃ position, history[position]? = some (.call client call) ∧ Quiet history client position
  stored : ∀ {key stored}, shared.object key = some stored →
    ∃ source client call, history[source]? = some (.call client call) ∧ call.Stores key stored ∧
      ∀ later writer other value, history[later]? = some (.call writer other) →
        other.Stores key value → ReturnsBetween history client source later →
        shared.clients writer = .pending other ∧ Quiet history writer later
  hit : ∀ {client hit}, shared.clients client = .done (some hit) →
    ServesLastPut history client hit

namespace Explained

variable {history : List (Action ι CacheCall (Option CacheHit))}
  {shared : Shared CacheMap ι CacheCall (Option CacheHit)}
  {action : Action ι CacheCall (Option CacheHit)}

omit [DecidableEq ι] in
/-- A new action supersedes nothing before an earlier position. -/
theorem superseded_of_concat {key : CacheKey} {client : ι} {source position : Nat}
    (within : position ≤ history.length)
    (superseded : Superseded (history ++ [action]) key client source position) :
    Superseded history key client source position := by
  obtain ⟨later, writer, call, stored, found, stores, after, before⟩ := superseded
  have bound : later < position := by
    obtain ⟨middle, _, low, high, _⟩ := before
    exact low.trans high
  rcases getElem?_concat found with earlier | ⟨rfl, _⟩
  · exact ⟨later, writer, call, stored, earlier, stores,
      after.of_concat (Nat.le_of_lt (lt_of_getElem? earlier)), before.of_concat within⟩
  · exact absurd within (Nat.not_le.mpr bound)

omit [DecidableEq ι] in
/-- Nothing has happened yet. -/
theorem start : Explained ([] : List (Action ι CacheCall (Option CacheHit)))
    (.start fun _ => none) where
  pending := fun waiting => by cases waiting
  stored := fun found => by cases found
  hit := fun done => by cases done

/-- A client that calls or returns leaves the others as they are, and the map too. -/
theorem act (explained : Explained history shared) {client : ι}
    {place : Client CacheCall (Option CacheHit)} (mine : action.client = client)
    (free : ∀ call, shared.clients client ≠ .pending call)
    (called : ∀ call, place = .pending call → action = .call client call)
    (calls : ∀ call, action = .call client call → place = .pending call)
    (undone : ∀ hit, place ≠ .done (some hit)) :
    Explained (history ++ [action]) (shared.move client place) where
  pending := fun {other call} waiting => by
    by_cases same : other = client
    · subst same
      rw [Shared.move_self] at waiting
      rw [called call waiting]
      exact ⟨history.length, List.getElem?_concat_length, quiet_concat_length⟩
    · rw [Shared.move_of_ne same] at waiting
      obtain ⟨position, found, quiet⟩ := explained.pending waiting
      exact ⟨position, getElem?_concat_of found,
        quiet.concat fun other => same (other.symm.trans mine)⟩
  stored := fun {key value} found => by
    obtain ⟨source, writer, call, made, stores, fresh⟩ := explained.stored found
    refine ⟨source, writer, call, getElem?_concat_of made, stores, ?_⟩
    intro later putter other stored put otherStores returned
    rcases getElem?_concat put with earlier | ⟨rfl, acted⟩
    · obtain ⟨waiting, quiet⟩ := fresh later putter other stored earlier otherStores
        (returned.of_concat (Nat.le_of_lt (lt_of_getElem? earlier)))
      have differ : putter ≠ client := fun same => free other (same ▸ waiting)
      exact ⟨(Shared.move_of_ne differ).trans waiting,
        quiet.concat fun same => differ (same.symm.trans mine)⟩
    · have same : putter = client := by
        rw [← mine, acted]
        rfl
      subst same
      exact ⟨Shared.move_self.trans (calls other acted), quiet_concat_length⟩
  hit := fun {other hit} done => by
    by_cases same : other = client
    · subst same
      rw [Shared.move_self] at done
      exact absurd done (undone hit)
    · rw [Shared.move_of_ne same] at done
      obtain ⟨position, name, qtype, cap, now, asked, quiet, source, writer, call, stored, made,
        stores, live, served, fresh⟩ := explained.hit done
      exact ⟨position, name, qtype, cap, now, getElem?_concat_of asked,
        quiet.concat fun other => same (other.symm.trans mine), source, writer, call, stored,
        getElem?_concat_of made, stores, live, served,
        fun superseded => fresh (superseded_of_concat (Nat.le_of_lt (lt_of_getElem? asked))
          superseded)⟩

/-- The map executes a call. -/
theorem execute (explained : Explained history shared) {client : ι} {call : CacheCall}
    {result : Option CacheHit} {after : CacheMap} (waiting : shared.clients client = .pending call)
    (answers : call.onMap shared.object = (result, after)) :
    Explained history ({ shared with object := after }.move client (.done result)) where
  pending := fun {other asked} called => by
    have differ : other ≠ client := by
      rintro rfl
      rw [Shared.move_self] at called
      cases called
    rw [Shared.move_of_ne differ] at called
    exact explained.pending called
  stored := fun {key value} found => by
    obtain ⟨position, asked, quiet⟩ := explained.pending waiting
    rcases CacheCall.onMap_eq_some answers found with stores | ⟨kept, others⟩
    · refine ⟨position, client, call, asked, stores, ?_⟩
      intro later writer other stored _ _ returned
      exact absurd returned quiet.not_returns
    · obtain ⟨source, writer, put, made, stores, fresh⟩ := explained.stored kept
      refine ⟨source, writer, put, made, stores, ?_⟩
      intro later putter other stored placed otherStores returned
      obtain ⟨called, quiet⟩ := fresh later putter other stored placed otherStores returned
      have differ : putter ≠ client := by
        rintro rfl
        obtain rfl := Client.pending.inj (called.symm.trans waiting)
        exact others stored otherStores
      exact ⟨(Shared.move_of_ne differ).trans called, quiet⟩
  hit := fun {other hit} done => by
    by_cases same : other = client
    · subst same
      rw [Shared.move_self] at done
      obtain rfl := Client.done.inj done
      obtain ⟨name, qtype, cap, now, stored, rfl, found, live, served⟩ :=
        CacheCall.onMap_hit answers
      obtain ⟨position, asked, quiet⟩ := explained.pending waiting
      obtain ⟨source, writer, put, made, stores, fresh⟩ := explained.stored found
      refine ⟨position, name, qtype, cap, now, asked, quiet, source, writer, put, stored, made,
        stores, live, served, ?_⟩
      rintro ⟨later, putter, call, value, placed, otherStores, returned, gone⟩
      exact (fresh later putter call value placed otherStores returned).2.not_returns gone
    · rw [Shared.move_of_ne same] at done
      exact explained.hit done

omit [DecidableEq ι] in
/-- A full map forgets. -/
theorem drift (explained : Explained history shared) {after : CacheMap}
    (drifts : boundedMap.drift shared.object after) :
    Explained history { shared with object := after } where
  pending := explained.pending
  stored := fun {key value} found => by
    obtain ⟨_, gone, rfl⟩ := drifts
    by_cases same : key = gone
    · subst same
      simp at found
    · simp only [Function.update_of_ne same] at found
      exact explained.stored found
  hit := explained.hit

/-- Every step of the map keeps the invariant. -/
theorem step (explained : Explained history shared)
    {label : Option (Action ι CacheCall (Option CacheHit))}
    {next : Shared CacheMap ι CacheCall (Option CacheHit)}
    (stepped : boundedMap.Step shared label next) :
    Explained (history ++ label.toList) next := by
  cases stepped with
  | call call idle =>
      refine explained.act rfl (by simp [idle]) ?_ ?_ (by simp)
      · intro other same
        cases same
        rfl
      · intro other same
        cases same
        rfl
  | execute waiting applies =>
      rw [Option.toList_none, List.append_nil]
      exact explained.execute waiting applies.1
  | ret executed => exact explained.act rfl (by simp [executed]) (by simp) (by simp) (by simp)
  | drift drifts =>
      rw [Option.toList_none, List.append_nil]
      exact explained.drift drifts

end Explained

/-- What is seen of the cache happens to a map whose contents the history up to there explains. -/
theorem explained_of_split {events : List (CacheEvent ι)} {final : SharedCache ι}
    (fits : ∀ event ∈ events, event.Fits)
    (done : Schedule.run SharedCache.step events .start = some final)
    {before after : List (Action ι CacheCall (Option CacheHit))}
    {action : Action ι CacheCall (Option CacheHit)}
    (split : events.filterMap CacheEvent.visible = before ++ action :: after) :
    ∃ shared next, Explained before shared ∧ boundedMap.Step shared (some action) next := by
  obtain ⟨last, run, _⟩ := cacheSimulation.run fits ⟨_, _, _, Tracks.start⟩ done
  obtain ⟨middle, next, first, acts⟩ := run.before split
  have explained : Explained ([] ++ before) middle :=
    Object.Run.invariant (fun _ _ _ _ kept stepped => kept.step stepped) first .start
  rw [List.nil_append] at explained
  exact ⟨middle, next, explained, acts⟩

/-- In every history that threads can make with the cache, a lookup that returns a hit returns the
answers of the last put of its key. -/
theorem hit_is_last_put {events : List (CacheEvent ι)} {final : SharedCache ι}
    (fits : ∀ event ∈ events, event.Fits)
    (done : Schedule.run SharedCache.step events .start = some final)
    {before after : List (Action ι CacheCall (Option CacheHit))} {client : ι} {hit : CacheHit}
    (split : events.filterMap CacheEvent.visible = before ++ .ret client (some hit) :: after) :
    ServesLastPut before client hit := by
  obtain ⟨shared, next, explained, returns⟩ := explained_of_split fits done split
  cases returns with
  | ret executed => exact explained.hit executed

/-- The last return of the overlapping calls. -/
theorem hit_is_last_put_example :
    ServesLastPut
      [.call (0 : Fin 2) (.put ⟨[97], by decide⟩ dnsTypeA [] dnsRcodeNxdomain 100 true),
        .call 1 (.get ⟨[65], by decide⟩ dnsTypeA 8 101), .ret 1 none,
        .call 1 (.get ⟨[65], by decide⟩ dnsTypeA 8 101), .ret 0 none] 1
      ⟨[], dnsRcodeNxdomain⟩ := by
  have ran : (Schedule.run SharedCache.step overlappingCalls .start).isSome := by decide +kernel
  exact hit_is_last_put (by decide) (Option.some_get ran).symm rfl

end FizzDns
