import Oun.Verification.Details.Provider
import Oun.Verification.Market.Refinement
import Oun.Verification.Offers.Balance
import Oun.Verification.Offers.OnePerProvider

/-! # What the screens ask the market

When all writes have landed, the queries of the screens, in whatever order the documents
come, answer as the market says. -/

namespace Oun

open Firestore Market Regex Transition

structure Answers (s : Store) (t : DocId) (lot : TaskLot) : Prop where
  accepted : ∀ documents provider, documents.Perm (s.notifs.whereEqualTo Notif.task t) →
    isAccepted documents provider = (lot.winner.isSome, lot.winner <|> provider)
  listed : ∀ documents, documents.Perm (s.notifs.whereEqualTo Notif.status .accepted) →
    listIsAccepted documents t = lot.winner.isSome
  offered : ∀ documents uid, documents.Perm (s.offers.whereEqualTo Offer.task t) →
    hasOffered documents uid = (lot.bids uid).isNone
  reported : ∀ documents uid, documents.Perm (s.violations.whereEqualTo Violation.taskId t) →
    (noReported documents uid = true ↔ uid ∉ lot.reporters)
  rated : ∀ documents, documents.Perm (s.rate.whereEqualTo Rate.task t) →
    israted documents = lot.rating.isSome
  price : ∀ documents p price, documents.Perm (s.offers.whereEqualTo Offer.task t) →
    lot.bids p = some price → fetchPrice documents (some p) = price
  told : ∀ p, rejections s t p = lot.refusals p

variable {w : World} {t : DocId} {lot : TaskLot}

/-! ## Offers -/

theorem World.Quiet.standing_iff (hquiet : w.Quiet) (hw : Reachable app w) (d : Doc Offer) :
    Standing w d ↔ d ∈ w.store.offers.docs := by
  refine ⟨fun h => h.1, fun hd => ⟨hd, ?_⟩⟩
  rw [← hquiet.logged_eq_issued]
  exact ((mem_offers_iff hw d).mp hd).2

theorem Shown.hasOffered (hw : Reachable app w) (hquiet : w.Quiet) (hs : Shown w t lot)
    {documents : List (Doc Offer)}
    (h : documents.Perm (w.store.offers.whereEqualTo Offer.task t)) (uid : Uid) :
    Oun.hasOffered documents uid = (lot.bids uid).isNone := by
  have hlive : 0 < liveOffers w.store t uid ↔ (lot.bids uid).isSome = true := by
    rw [liveOffers, Collection.count_pos, hs.isSome_iff]
    simp [hquiet.standing_iff hw, offeredBy]
  rw [Bool.eq_iff_iff, hasOffered_iff h, ← Option.not_isSome, Bool.not_eq_true',
    ← Bool.not_eq_true, ← hlive]
  omega

theorem Shown.fetchPrice (hw : Reachable app w) (hquiet : w.Quiet) (hs : Shown w t lot)
    {documents : List (Doc Offer)}
    (h : documents.Perm (w.store.offers.whereEqualTo Offer.task t)) {p : Uid} {price : Text}
    (hbid : lot.bids p = some price) : Oun.fetchPrice documents (some p) = price := by
  have hmem : ∀ d, d ∈ documents ↔ Standing w d ∧ d.data.task = t := by
    simp [h.mem_iff, hquiet.standing_iff hw]
  obtain ⟨d, hd, htask, hby, -⟩ := (hs.bids p price).mp hbid
  obtain ⟨x, hx, hxp, hfound⟩ := fetchPrice_mem ⟨d, (hmem d).mpr ⟨hd, htask⟩, hby⟩
  have hsame : lot.bids p = some x.data.price :=
    (hs.bids p _).mpr ⟨x, ((hmem x).mp hx).1, ((hmem x).mp hx).2, hxp, rfl⟩
  exact hfound.trans (Option.some.inj (hsame.symm.trans hbid))

/-! ## Acceptances -/

theorem Shown.winner_iff (hw : Reachable app w) (hquiet : w.Quiet) (hs : Shown w t lot) (p : Uid) :
    lot.winner = some p ↔ ∃ d ∈ w.store.notifs.docs, d.data.task = t ∧ d.data.user = p ∧
      d.data.status = .accepted := by
  rw [hs.winner, ← hquiet.logged_eq_issued, Call.awards, ← notifs_eq_logged hw,
    Collection.count_pos]
  simp [notified, and_assoc]

theorem Shown.winner_isSome (hw : Reachable app w) (hquiet : w.Quiet) (hs : Shown w t lot) :
    lot.winner.isSome = true ↔ 0 < winners w.store t := by
  rw [Option.isSome_iff_exists, winners, Collection.count_pos]
  simp only [hs.winner_iff hw hquiet, acceptedOn, Bool.and_eq_true, decide_eq_true_eq]
  constructor
  · rintro ⟨-, d, hd, htask, rfl, hstatus⟩
    exact ⟨d, hd, htask, hstatus⟩
  · rintro ⟨d, hd, htask, hstatus⟩
    exact ⟨_, d, hd, htask, rfl, hstatus⟩

theorem Shown.isAccepted (hw : Reachable app w) (hquiet : w.Quiet) (hs : Shown w t lot)
    (hone : winners w.store t ≤ 1) {documents : List (Doc Notif)}
    (h : documents.Perm (w.store.notifs.whereEqualTo Notif.task t)) (provider : Option Uid) :
    Oun.isAccepted documents provider = (lot.winner.isSome, lot.winner <|> provider) := by
  have hwinner := hs.winner_isSome hw hquiet
  refine Prod.ext (Bool.eq_iff_iff.mpr ?_) ?_
  · rw [isAccepted_iff h, hwinner]
    omega
  · rcases isAccepted_stored h provider with ⟨hnone, hsame⟩ | ⟨d, -, hd, htask, hstatus, hset⟩
    · have hopen : lot.winner = none := by
        refine Option.eq_none_iff_forall_ne_some.mpr fun p hp => ?_
        obtain ⟨d, hd, htask, -, hstatus⟩ := (hs.winner_iff hw hquiet p).mp hp
        exact hnone d (h.mem_iff.mpr ((w.store.notifs.mem_whereEqualTo _ _ d).mpr ⟨hd, htask⟩))
          hstatus
      rw [hsame, hopen]
      rfl
    · have hwon : lot.winner = some d.data.user :=
        (hs.winner_iff hw hquiet _).mpr ⟨d, hd, htask, rfl, hstatus⟩
      rw [hset, hwon]
      rfl

/-! ## Reports and ratings -/

theorem Shown.noReported (hw : Reachable app w) (hquiet : w.Quiet) (hs : Shown w t lot)
    {documents : List (Doc Violation)}
    (h : documents.Perm (w.store.violations.whereEqualTo Violation.taskId t)) (uid : Uid) :
    Oun.noReported documents uid = true ↔ uid ∉ lot.reporters := by
  have hnone : ¬ ∃ p ∈ w.processes, ∃ c ∈ p.handler.calls, ∃ v ∈ c.write.violation?,
      v.taskId = t ∧ v.reporter = uid := by
    rintro ⟨p, hp, c, hc, -⟩
    simp [hquiet p hp] at hc
  rw [noReported_perm h, hs.mem_reporters hw, Reported, or_iff_left hnone, Bool.not_eq_false]

theorem Shown.israted (hw : Reachable app w) (hquiet : w.Quiet) (hs : Shown w t lot)
    {documents : List (Doc Rate)}
    (h : documents.Perm (w.store.rate.whereEqualTo Rate.task t)) :
    Oun.israted documents = lot.rating.isSome := by
  rw [Bool.eq_iff_iff, israted_iff, Option.isSome_iff_exists, List.length_pos_iff_exists_mem]
  simp only [h.mem_iff, Collection.mem_whereEqualTo, Prod.exists, hs.rating,
    ← hquiet.logged_eq_issued, Call.grades, ← rate_grows.count_eq_logged hw, Collection.count_pos,
    hasKey, decide_eq_true_eq, id_eq]
  constructor
  · rintro ⟨d, hd, rfl⟩
    exact ⟨_, _, d, hd, rfl⟩
  · rintro ⟨p, stars, d, hd, heq⟩
    exact ⟨d, hd, by rw [heq]⟩

/-! ## All questions -/

theorem Shown.answers (hw : Reachable app w) (hquiet : w.Quiet) (hs : Shown w t lot)
    (hone : winners w.store t ≤ 1) : Answers w.store t lot where
  accepted _ provider h := hs.isAccepted hw hquiet hone h provider
  listed documents h := by
    rw [Bool.eq_iff_iff, listIsAccepted_iff_winners h, hs.winner_isSome hw hquiet]
  offered _ uid h := hs.hasOffered hw hquiet h uid
  reported _ uid h := hs.noReported hw hquiet h uid
  rated _ h := hs.israted hw hquiet h
  price _ _ _ h hbid := hs.fetchPrice hw hquiet h hbid
  told p := by
    rw [hs.refusals, ← hquiet.logged_eq_issued, Call.refuses, ← notifs_eq_logged hw]
    rfl

theorem chooses_of_permitted {a : Action} (h : Permitted w a) : ChoosesUnsettled w a := by
  intro choice hchosen
  cases a with
  | process k input =>
      cases input with
      | offers documents =>
          simp only [chosen] at hchosen
          split at hchosen
          · rename_i uid taskId item hget
            split at hchosen
            · rename_i hmem
              obtain rfl := Option.some.inj hchosen
              rcases h _ hget with rfl | ⟨hopen, -⟩
              · simp at hmem
              · exact hopen
            · simp at hchosen
          · simp at hchosen
      | _ => simp [chosen] at hchosen
  | _ => simp [chosen] at hchosen

end Oun
