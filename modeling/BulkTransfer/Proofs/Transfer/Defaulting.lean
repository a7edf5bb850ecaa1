import BulkTransfer.Proofs.Concurrency.Default
import BulkTransfer.Proofs.Transfer.Rejecting

/-!
# Moves without a concurrency

A request may leave the concurrency to the host.  What rejects a move then is what rejects it at any
finite concurrency: none of the steps that can reject a move reads more of the concurrency than that
it is finite (`Rejected.at_finite`), and the host's default is.
-/

namespace BulkTransfer

namespace Transfer

variable {σ τ : Type} {host : Host} {transport : Transport σ} {request : Request} {world : σ}
  {direction : Direction} {ran : Ran σ (List TransferResult)} {c d : Option Number}

/-! ## Two finite concurrencies -/

theorem fault?_of_isFinite {m n : Number} (hm : m.isFinite = true) (hn : n.isFinite = true)
    (container : Text) (keyPrefix : Option Text) :
    fault? container m keyPrefix = fault? container n keyPrefix := by
  simp only [fault?, hm, hn]
  rfl

/-- A move that is rejected at one finite concurrency is rejected at any other, with the same
error. -/
theorem Rejected.at_finite
    (h : Rejected host transport { request with concurrency := c } world direction ran)
    (hc : (concurrencyOf host { request with concurrency := c }).1.isFinite = true)
    (hd : (concurrencyOf host { request with concurrency := d }).1.isFinite = true) :
    ∃ ran', Rejected host transport { request with concurrency := d } world direction ran' ∧
      ran'.outcome = ran.outcome := by
  have hfault := fault?_of_isFinite hc hd request.container request.keyPrefix
  cases h with
  | request direction h => exact ⟨_, .request direction (hfault.symm.trans h), rfl⟩
  | container haccepted h => exact ⟨_, .container (hfault.symm.trans haccepted) h, rfl⟩
  | directory haccepted hprepared h =>
    exact ⟨_, .directory (hfault.symm.trans haccepted) hprepared h, rfl⟩
  | listing haccepted h => exact ⟨_, .listing (hfault.symm.trans haccepted) h, rfl⟩

theorem error_at_finite {observer : Observer τ} {error : Thrown}
    (h : (move direction host transport { request with concurrency := c } observer world).outcome =
      .error error)
    (hc : (concurrencyOf host { request with concurrency := c }).1.isFinite = true)
    (hd : (concurrencyOf host { request with concurrency := d }).1.isFinite = true) :
    (move direction host transport { request with concurrency := d } observer world).outcome =
      .error error := by
  obtain ⟨ran', hrejected, houtcome⟩ := (rejected_of_error direction h).at_finite hc hd
  rw [hrejected.move_eq observer, houtcome, h]

/-! ## The default -/

/-- The default concurrency is the number that the environment's text starts with, brought into the
range from 1 to 64, with a warning just when it was out of that range; without such a number it is
half of the processors, with a warning when there was a text.  So it is a whole number that is at
least one, and a move without a concurrency is rejected just as at any finite concurrency; that the
number of processors is finite as a floating point value is all that is asked of the host. -/
theorem concurrency_by_default (host : Host) :
    let fallback := max 1 (host.cpus / 2)
    let setting := host.environment.lookup Concurrency.overrideName
    let chosen := Concurrency.ofHost host
    (setting = none ∨ setting = some [] → chosen = (fallback, none)) ∧
      (∀ t v, setting = some t → Concurrency.StartsWith t v →
        (chosen.1 : Int) = min 64 (max 1 v) ∧ (chosen.2.isSome = true ↔ v < 1 ∨ 64 < v)) ∧
      (∀ t, setting = some t → t ≠ [] → (¬ ∃ v, Concurrency.StartsWith t v) →
        ∃ warning, chosen = (fallback, some warning)) ∧
      1 ≤ chosen.1 ∧
      ((Number.ofInt host.cpus).isFinite = true →
        ∀ {σ τ : Type} (transport : Transport σ) (request : Request) (observer : Observer τ)
          (world : σ) (direction : Direction), request.concurrency = none →
          (∃ n : Nat, 1 ≤ n ∧ (concurrencyOf host request).1 = .finite n) ∧
            ∀ (q : Rat) (error : Thrown),
              (move direction host transport request observer world).outcome = .error error ↔
                (move direction host transport { request with concurrency := some (.finite q) }
                  observer world).outcome = .error error) := by
  intro fallback setting chosen
  refine ⟨fun hunset => ?_, fun t v hset hstarts => ?_, fun t hset hne hstarts => ?_,
    Concurrency.one_le_ofHost host, fun hcpus σ τ transport request observer world direction
      hnone => ⟨?_, fun q error => ?_⟩⟩
  · apply Concurrency.ofHost_of_unset
    unfold Environment.value?
    rcases hunset with h | h
    all_goals rw [show host.environment.lookup Concurrency.overrideName = _ from h]
  · exact Concurrency.ofHost_of_startsWith
      (Environment.value?_eq_some_iff.2 ⟨hset, hstarts.ne_nil⟩) hstarts
  · exact Concurrency.ofHost_of_not_startsWith
      (Environment.value?_eq_some_iff.2 ⟨hset, hne⟩) hstarts
  · unfold concurrencyOf
    rw [hnone]
    exact Concurrency.exists_ofInt_ofHost_eq hcpus
  · have hrequest : request = { request with concurrency := none } := by
      rw [← hnone]
    have hdefault :
        (concurrencyOf host { request with concurrency := none }).1.isFinite = true :=
      Concurrency.isFinite_ofHost hcpus
    constructor
    · intro h
      rw [hrequest] at h
      exact error_at_finite h hdefault rfl
    · intro h
      rw [hrequest]
      exact error_at_finite h rfl hdefault

/-- Text after the digits does not count, and 65 is too many. -/
theorem concurrency_by_default_of_sixty_five :
    let t : Text := "\t +0065x"
    let host : Host := ⟨9, [(Concurrency.overrideName, t)], .binary⟩
    Concurrency.StartsWith t 65 ∧ (Number.ofInt host.cpus).isFinite = true ∧
      (Concurrency.ofHost host).1 = 64 ∧ (Concurrency.ofHost host).2.isSome = true := by
  intro t host
  have hstarts : Concurrency.StartsWith t 65 :=
    Concurrency.leading?_eq_some_iff.1 (by decide +kernel)
  have hset : host.environment.lookup Concurrency.overrideName = some t := by decide +kernel
  obtain ⟨hnumber, hwarning⟩ := (concurrency_by_default host).2.1 t 65 hset hstarts
  refine ⟨hstarts, by decide +kernel, ?_, hwarning.2 (.inr (by decide))⟩
  omega

end Transfer

end BulkTransfer
