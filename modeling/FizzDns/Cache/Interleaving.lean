import FizzDns.Foundation.FilterRace
import FizzDns.Cache.Retention

/-!
# Lookups race with updates

`dns_bloom_maybe` runs outside the mutex, so its four loads fall anywhere between the
loads and stores that put, eviction and expiry make under it. The writer's calls are the
ones that the cache itself makes: `recordingBloom` is a filter that writes them down. It
rejects nothing, so that every recorded lookup goes on to the part under the mutex; a
lookup that a filter rejects makes no call and is left out of the run.
-/

namespace FizzDns

open FilterRace

/-- The filter calls that the cache has made since the last reset, the latest last. -/
def recordingBloom : BloomOps (List (Call CacheKey)) where
  reset := fun _ => []
  maybe := fun _ _ _ => true
  add := fun name qtype calls => calls ++ [.add (cacheKey name qtype)]
  del := fun name qtype calls => calls ++ [.del (cacheKey name qtype)]

/-- The recorded calls delete only what is present, and leave what is cached. -/
def recordingLaw : FilterLaw recordingBloom where
  tracks := fun calls keys => ∃ present, replay calls [] = some present ∧ present.Perm keys
  perm := fun ⟨present, replayed, same⟩ others => ⟨present, replayed, same.trans others⟩
  reset := fun _ => ⟨[], rfl, .refl _⟩
  add := fun _ _ ⟨_, replayed, same⟩ => ⟨_, replay_concat_add replayed, same.cons _⟩
  del := fun ⟨_, replayed, same⟩ => replay_concat_del replayed same
  maybe := fun _ _ => rfl

/-- The filter calls of a run of cache operations. -/
def filterCalls (ops : List CacheOp) : Option (List (Call CacheKey)) := do
  let (_, s) ← cacheRun recordingBloom ops (.start [])
  some s.bloom

/-- A run of cache operations makes calls that delete only what is present. -/
theorem filterCalls_sound {ops : List CacheOp} (fits : ∀ op ∈ ops, op.Fits) :
    ∃ calls, filterCalls ops = some calls ∧ (replay calls []).isSome := by
  have start : Refines recordingLaw (.start []) LruCache.empty :=
    ⟨⟨[], Layout.nil (fun _ => rfl) rfl rfl, rfl, rfl⟩, ⟨[], rfl, .refl _⟩⟩
  obtain ⟨final, done, refines⟩ := cacheRun_refines start fits
  obtain ⟨present, replayed, _⟩ := refines.tracked
  exact ⟨final.bloom, by simp [filterCalls, done], by rw [replayed]; rfl⟩

/-- In every interleaving of lookups with a run of puts and locked lookups, a lookup whose
four loads fall between the end of its key's insertion and the start of its removal is
not rejected. The schedule is cut at the last store of the insertion and at the first load
of the lookup by `reader`; `during` reaches up to any later point of the same lookup. -/
theorem settled_key_not_rejected (ρ : Type) [DecidableEq ρ] (ops : List CacheOp)
    (fits : ∀ op ∈ ops, op.Fits) :
    ∃ calls, filterCalls ops = some calls ∧
      ∀ (earlier between during : List (Event ρ CacheKey)) (reader : ρ) (key : CacheKey)
        (final : Race ρ CacheKey (Fin bloomSlotCount)),
        run keySlots (earlier ++ .write (some (.inserted key)) ::
          (between ++ .enter reader key :: during)) (.start calls) = some final →
        .write (some (.removing key)) ∉ between ++ during →
        (∀ other, .enter reader other ∉ during) →
        (∀ result, final.readers reader = .returned key result → result = true) ∧
        (during.count (.read reader) = 3 → final.readers reader = .returned key true) := by
  obtain ⟨calls, made, sound⟩ := filterCalls_sound fits
  refine ⟨calls, made, fun earlier between during reader key final done keeps same => ?_⟩
  have length := length_keySlots key
  have nonempty : keySlots key ≠ [] := by
    intro empty
    rw [empty] at length
    cases length
  have outcome := run_settled sound done keeps same nonempty
  constructor
  · intro result returned
    rw [outcome] at returned
    unfold Reader.resume at returned
    split at returned
    · cases returned
      rfl
    · cases returned
  · intro loads
    rw [outcome, loads, List.drop_of_length_le (by rw [length]; decide)]
    rfl

/-- One put, and a lookup that starts after the put's last store. -/
theorem settled_key_not_rejected_example :
    ∃ calls final, filterCalls [.put ⟨[97], by decide⟩ dnsTypeA [] dnsRcodeNxdomain 100 true] =
        some calls ∧
      run keySlots
          ([.write none, .write none, .write none, .write none, .write none, .write none,
            .write none] ++ .write (some (.inserted (cacheKey [65] dnsTypeA))) ::
            ([] ++ .enter (1 : Fin 2) (cacheKey [65] dnsTypeA) :: [.read 1, .read 1, .read 1]))
          (.start calls) = some final ∧
      final.readers 1 = .returned (cacheKey [65] dnsTypeA) true := by
  obtain ⟨calls, made, never⟩ := settled_key_not_rejected (Fin 2)
    [.put ⟨[97], by decide⟩ dnsTypeA [] dnsRcodeNxdomain 100 true] (by decide)
  have call : filterCalls [.put ⟨[97], by decide⟩ dnsTypeA [] dnsRcodeNxdomain 100 true] =
      some [.add (cacheKey [97] dnsTypeA)] := by
    decide +kernel
  obtain rfl : [.add (cacheKey [97] dnsTypeA)] = calls := Option.some.inj (call.symm.trans made)
  refine ⟨_, _, made, (Option.some_get ?ran).symm, ?returned⟩
  case ran => decide +kernel
  case returned => exact (never _ _ _ 1 _ _ (Option.some_get _).symm (by decide) (by simp)).2 rfl

/-- **A truncated name takes another key's counters.** A name of 258 characters is put, and only its
first 255 are kept. When the entry has expired, a lookup of what is kept finds it and lowers the
counters of the kept name, which were raised for another key alone. That key has been inserted and
is not removed, and still its lookup is rejected. So in the run of the whole cache the last call, a
lookup of that key, misses with the filter and hits without one. -/
theorem long_name_lowers_other_key :
    let long : CString := ⟨List.replicate 255 97 ++ [119, 100, 103], by decide +kernel⟩
    let kept : CString := ⟨List.replicate 255 97, by decide +kernel⟩
    let name : CString := ⟨[115, 107, 111, 101, 99, 103, 111], by decide⟩
    let key := cacheKey name.chars dnsTypeA
    let ops : List CacheOp := [.put long dnsTypeA [] dnsRcodeNxdomain 0 true,
      .put name dnsTypeA [] dnsRcodeNxdomain 50 true, .get kept dnsTypeA 8 61]
    let between : List (Event (Fin 1) CacheKey) :=
      .write (some (.removing (cacheKey kept.chars dnsTypeA))) :: List.replicate 7 (.write none)
    (∃ calls final, filterCalls ops = some calls ∧
      run keySlots (List.replicate 7 (.write none) ++
        .write (some (.inserted (cacheKey long.chars dnsTypeA))) ::
          (List.replicate 7 (.write none) ++ .write (some (.inserted key)) ::
            (between ++ [.enter (0 : Fin 1) key]))) (.start calls) = some final ∧
      .write (some (.removing key)) ∉ between ∧ final.readers 0 = .returned key false) ∧
    (cacheRun countingBloom (ops ++ [.get name dnsTypeA 8 61]) (.start fun _ => 0)).map
      (fun done => done.1.map Option.isSome) = some [false, false, false, false] ∧
    (cacheRun disabledBloom (ops ++ [.get name dnsTypeA 8 61]) (.start ())).map
      (fun done => done.1.map Option.isSome) = some [false, false, false, true] := by
  intro long kept name key ops between
  have made : filterCalls ops = some [.add (cacheKey long.chars dnsTypeA), .add key,
      .del (cacheKey kept.chars dnsTypeA)] := by
    decide +kernel
  refine ⟨⟨_, _, made, (Option.some_get ?ran).symm, ?_, ?returned⟩, ?_, ?_⟩
  all_goals decide +kernel

end FizzDns
