import Noezema.Memory.Coverage
import Noezema.Memory.Resolutions

/-! # Support and counterevidence of one record

The evidence section of a commit stores one row for a record and a claim: the key of the
table is the claim, the kind and the identity of the record, and the relation is a column
like any other. A link to a record that has its row is counted as a repetition, whichever
relation it is staged with.
-/

namespace Noezema.Memory

open Noezema.Lib

/-! ## Rows of one record -/

/-- The row is the one of the record and the claim. -/
def Evidence.Records (c : ClaimId) (e row : Evidence) : Prop :=
  row.claimId = c ∧ row.kind = e.kind ∧ row.identityHash = e.identityHash

instance (c : ClaimId) (e row : Evidence) : Decidable (e.Records c row) := by
  unfold Evidence.Records
  infer_instance

theorem EvidenceDb.hasRow_eq {db : EvidenceDb} {c : ClaimId} {e : Evidence} :
    db.hasRow c e = true ↔ ∃ row ∈ db.evidence, e.Records c row := by
  simp [hasRow, Evidence.Records]

/-- The link brings the record to the claim, in whichever relation. -/
def EvidenceLink.stages (ids : List (Option ClaimId)) (c : ClaimId) (e : Evidence)
    (link : EvidenceLink) : Bool :=
  link.claim ids = some c && link.evidence.any fun e' =>
    e'.hasProvenance && e'.kind = e.kind && e'.identityHash = e.identityHash

/-- The first link that brings the record to the claim has this row. -/
def FirstStaged (ids : List (Option ClaimId)) (links : List EvidenceLink) (c : ClaimId)
    (e e' : Evidence) : Prop :=
  (links.find? (·.stages ids c e)).bind (·.evidence) = some e'

theorem EvidenceLink.stages_eq {ids : List (Option ClaimId)} {c : ClaimId} {e : Evidence}
    {link : EvidenceLink} : link.stages ids c e = true ↔ link.claim ids = some c ∧
      ∃ e', link.evidence = some e' ∧ e'.hasProvenance = true ∧ e'.kind = e.kind ∧
        e'.identityHash = e.identityHash := by
  simp [stages, Option.any_eq_true, and_assoc]

/-- **The rows of a record after one link**: those before, or the one the link makes. -/
theorem applyLink_records {ids : List (Option ClaimId)} (c : ClaimId) (e : Evidence)
    {link : EvidenceLink} {t u : AssessmentDb} (h : applyLink ids t link = .ok u) :
    u.revocations = t.revocations ∧ t.evidence.length ≤ u.evidence.length ∧
      ∀ row, (row ∈ u.evidence ∧ e.Records c row) ↔
        (row ∈ t.evidence ∧ e.Records c row) ∨
        ((∀ row ∈ t.evidence, ¬ e.Records c row) ∧ link.stages ids c e = true ∧
          ∃ e', link.evidence = some e' ∧ row = e'.rowFor t.evidence.length c) := by
  rcases applyLink_ok h with ⟨rfl, hold⟩ | ⟨e₀, c₀, he₀, hc₀, hfree, hprov, hs, rfl⟩
  · refine ⟨rfl, le_rfl, fun row => (or_iff_left ?_).symm⟩
    -- a link that makes no row finds one of its record
    rintro ⟨hno, hstages, -⟩
    obtain ⟨hclaim, e₁, he₁, hprov, hkind, hhash⟩ := EvidenceLink.stages_eq.mp hstages
    obtain ⟨row, hrow, hc, hk, hh⟩ := EvidenceDb.hasRow_eq.mp (hold e₁ c he₁ hclaim hprov)
    exact hno row hrow ⟨hc, hk.trans hkind, hh.trans hhash⟩
  · have hevidence : (t.toEvidenceDb.insertEvidence (e₀.rowFor t.evidence.length c₀)
        hs).evidence = t.evidence ++ [e₀.rowFor t.evidence.length c₀] := rfl
    refine ⟨rfl, ?_, fun row => ?_⟩
    · rw [hevidence, List.length_append]
      exact Nat.le_add_right _ _
    · rw [hevidence, List.mem_append, List.mem_singleton, or_and_right]
      refine or_congr_right ⟨?_, ?_⟩
      · rintro ⟨rfl, hclaim, hkind, hhash⟩
        obtain rfl : c₀ = c := hclaim
        refine ⟨?_, EvidenceLink.stages_eq.mpr ⟨hc₀, e₀, he₀, hprov, hkind, hhash⟩, e₀, he₀, rfl⟩
        intro row hrow hrec
        have hrow : t.hasRow c₀ e₀ = true := EvidenceDb.hasRow_eq.mpr ⟨row, hrow, hrec.1,
          hrec.2.1.trans hkind.symm, hrec.2.2.trans hhash.symm⟩
        rw [hrow] at hfree
        cases hfree
      · rintro ⟨-, hstages, e', he', rfl⟩
        obtain ⟨hclaim, e₁, he₁, -, hkind, hhash⟩ := EvidenceLink.stages_eq.mp hstages
        obtain rfl := Option.some.inj (hc₀.symm.trans hclaim)
        obtain rfl := Option.some.inj (he₁.symm.trans he')
        obtain rfl := Option.some.inj (he₀.symm.trans he')
        exact ⟨rfl, rfl, hkind, hhash⟩

/-- **The rows of a record after the links**: those before, or one made by the first
link that brings it. -/
theorem applyLinks_records {ids : List (Option ClaimId)} (c : ClaimId) (e : Evidence)
    {links : List EvidenceLink} {t u : AssessmentDb}
    (h : links.foldlM (applyLink ids) t = .ok u) :
    u.revocations = t.revocations ∧ ∃ n, t.evidence.length ≤ n ∧
      ∀ row, (row ∈ u.evidence ∧ e.Records c row) ↔
        (row ∈ t.evidence ∧ e.Records c row) ∨
        ((∀ row ∈ t.evidence, ¬ e.Records c row) ∧
          ∃ e', FirstStaged ids links c e e' ∧ row = e'.rowFor n c) := by
  induction links generalizing t with
  | nil =>
    cases h
    exact ⟨rfl, _, le_rfl, fun row => by simp [FirstStaged]⟩
  | cons link rest ih =>
    obtain ⟨v, hv, hrest⟩ := bind_eq_ok.mp h
    obtain ⟨hrevocations, hlen, hone⟩ := applyLink_records c e hv
    obtain ⟨hkept, n, hn, hrows⟩ := ih hrest
    refine ⟨hkept.trans hrevocations, ?_⟩
    cases hstages : link.stages ids c e with
    | false =>
      have hsame : ∀ row, (row ∈ v.evidence ∧ e.Records c row) ↔
          (row ∈ t.evidence ∧ e.Records c row) := by
        intro row
        rw [hone row, hstages]
        simp
      have hnone : (∀ row ∈ v.evidence, ¬ e.Records c row) ↔
          ∀ row ∈ t.evidence, ¬ e.Records c row := by
        simpa only [not_and] using forall_congr' fun row => not_congr (hsame row)
      have hfirst : ∀ e', FirstStaged ids (link :: rest) c e e' ↔ FirstStaged ids rest c e e' := by
        intro e'
        rw [FirstStaged, List.find?_cons_of_neg (by simp [hstages]), FirstStaged]
      refine ⟨n, hlen.trans hn, fun row => ?_⟩
      rw [hrows row, hsame row, hnone]
      simp only [hfirst]
    | true =>
      obtain ⟨-, e₁, he₁, -⟩ := EvidenceLink.stages_eq.mp hstages
      have hfirst : ∀ e', FirstStaged ids (link :: rest) c e e' ↔ link.evidence = some e' := by
        intro e'
        rw [FirstStaged, List.find?_cons_of_pos hstages, Option.bind_some]
      -- from here on the record has a row
      have hpresent : ¬ ∀ row ∈ v.evidence, ¬ e.Records c row := by
        intro hno
        have hfree : ∀ row ∈ t.evidence, ¬ e.Records c row := fun row hrow hrec =>
          hno row ((hone row).mpr (.inl ⟨hrow, hrec⟩)).1 hrec
        obtain ⟨hin, hrec⟩ := (hone _).mpr (.inr ⟨hfree, hstages, e₁, he₁, rfl⟩)
        exact hno _ hin hrec
      refine ⟨t.evidence.length, le_rfl, fun row => ?_⟩
      rw [hrows row, or_iff_left fun hno => hpresent hno.1, hone row]
      simp only [hstages, hfirst, true_and]

/-- The rows of a record stay, whatever links follow. -/
theorem applyLinks_hasRow {ids : List (Option ClaimId)} {links : List EvidenceLink}
    {t u : AssessmentDb} (h : links.foldlM (applyLink ids) t = .ok u) {c : ClaimId}
    {e : Evidence} (hrow : t.hasRow c e = true) : u.hasRow c e = true := by
  obtain ⟨row, hin, hrec⟩ := EvidenceDb.hasRow_eq.mp hrow
  obtain ⟨-, n, -, hrows⟩ := applyLinks_records c e h
  obtain ⟨hin', -⟩ := (hrows row).mpr (.inl ⟨hin, hrec⟩)
  exact EvidenceDb.hasRow_eq.mpr ⟨row, hin', hrec⟩

/-- A round without a problem leaves its record with a row. -/
theorem linkProblem_none {ids : List (Option ClaimId)} {t u : AssessmentDb}
    {link : EvidenceLink} (hproblem : linkProblem ids t link = none)
    (h : applyLink ids t link = .ok u) :
    ∃ e c, link.evidence = some e ∧ link.claim ids = some c ∧ u.hasRow c e = true := by
  unfold linkProblem at hproblem
  split at hproblem
  · cases hproblem
  · cases hproblem
  · rename_i e c he hc
    refine ⟨e, c, he, hc, ?_⟩
    have hstored : t.hasRow c e = true ∨ e.hasProvenance = true := by
      simpa [Decidable.or_iff_not_imp_left] using hproblem
    rcases applyLink_ok h with ⟨rfl, hold⟩ | ⟨e', c', he', hc', -, -, hs, rfl⟩
    · exact hstored.elim id (hold e c he hc)
    · obtain rfl := Option.some.inj (he.symm.trans he')
      obtain rfl := Option.some.inj (hc.symm.trans hc')
      refine EvidenceDb.hasRow_eq.mpr ⟨e.rowFor t.evidence.length c, ?_, rfl, rfl, rfl⟩
      exact List.mem_append_right _ (List.mem_singleton_self _)

/-- **No record is lost**: where no link has a problem, each has the row of its record,
in one relation or the other. -/
theorem linkProblems_nil {ids : List (Option ClaimId)} {links : List EvidenceLink}
    {t u : AssessmentDb} (hproblems : linkProblems ids t links = [])
    (h : links.foldlM (applyLink ids) t = .ok u) :
    ∀ link ∈ links, ∃ e c, link.evidence = some e ∧ link.claim ids = some c ∧
      u.hasRow c e = true := by
  induction links generalizing t with
  | nil => exact fun _ hl => absurd hl List.not_mem_nil
  | cons link rest ih =>
    obtain ⟨v, hv, hrest⟩ := bind_eq_ok.mp h
    obtain ⟨hfirst, hlater⟩ : (linkProblem ids t link).toList = [] ∧
        linkProblems ids v rest = [] := by
      rw [linkProblems, hv] at hproblems
      exact List.append_eq_nil_iff.mp hproblems
    intro l hl
    rcases List.mem_cons.mp hl with rfl | hl
    · obtain ⟨e, c, he, hc, hrow⟩ := linkProblem_none (Option.toList_eq_nil_iff.mp hfirst) hv
      exact ⟨e, c, he, hc, applyLinks_hasRow hrest hrow⟩
    · exact ih hlater hrest l hl

/-! ## What a commit keeps of a link -/

/-- A revocation names a stored row. -/
def EvidenceDb.RevokesStored (db : EvidenceDb) : Prop :=
  ∀ r ∈ db.revocations, r.evidenceId < db.evidence.length

theorem EvidenceDb.RevokesStored.not_revoked {db : EvidenceDb} (h : db.RevokesStored)
    {n : EvidenceId} (hn : db.evidence.length ≤ n) : db.revoked n = false := by
  rw [revoked, List.any_eq_false]
  intro r hr
  have hlt := h r hr
  have hne : r.evidenceId ≠ n := Nat.ne_of_lt (Nat.lt_of_lt_of_le hlt hn)
  simp [hne]

/-- The record has the relation: its row in force has it, or it has no row, and the first
link of the commit gives it one with the relation. -/
def KeepsRelation (db : EvidenceDb) (ids : List (Option ClaimId)) (links : List EvidenceLink)
    (c : ClaimId) (e : Evidence) : Prop :=
  (∃ row ∈ db.activeEvidence c, e.Records c row ∧ row.relation = e.relation) ∨
    ((∀ row ∈ db.evidence, ¬ e.Records c row) ∧
      ∃ e', FirstStaged ids links c e e' ∧ e'.relation = e.relation)

namespace MemoryDb

theorem applyClaimStaging_links {host : Host} {db db' : MemoryDb} {statements : ClaimId → Text}
    {pin : SnapshotId} {ops : List ProposedClaim} {links : List EvidenceLink}
    {res : MemoryApplyResult} {snapshot : ConfigSnapshot}
    (h : db.applyClaimStaging host statements pin ops links = .ok (db', res))
    (hsnapshot : db.snapshot? pin = some snapshot) (hops : ops ≠ []) :
    ∃ tables, links.foldlM (applyLink
        ((stageOps host snapshot.rules (db.corpus statements pin) ops).map (·.claim)))
          db.tables = .ok tables ∧ db'.tables.toEvidenceDb = tables.toEvidenceDb := by
  unfold applyClaimStaging at h
  rw [if_neg hops, hsnapshot] at h
  obtain ⟨tables, hlinks, h⟩ := bind_eq_ok.mp h
  obtain ⟨⟨db₁, assessed⟩, hassess, h⟩ := bind_eq_ok.mp h
  cases h
  exact ⟨tables, hlinks, (assessClaims_assesses hassess).1.evidence⟩

theorem relation_kept_iff {host : Host} {db db' : MemoryDb} {statements : ClaimId → Text}
    {pin : SnapshotId} {ops : List ProposedClaim} {links : List EvidenceLink}
    {res : MemoryApplyResult} {snapshot : ConfigSnapshot} (hstored : db.tables.RevokesStored)
    (h : db.applyClaimStaging host statements pin ops links = .ok (db', res))
    (hsnapshot : db.snapshot? pin = some snapshot) (hops : ops ≠ []) (e : Evidence)
    (c : ClaimId) :
    (∃ row ∈ db'.tables.claimEvidenceForAssessment c, e.Records c row ∧
      row.relation = e.relation) ↔
    KeepsRelation db.tables.toEvidenceDb
      ((stageOps host snapshot.rules (db.corpus statements pin) ops).map (·.claim)) links c e := by
  obtain ⟨tables, hlinks, hsame⟩ := applyClaimStaging_links h hsnapshot hops
  obtain ⟨hrevocations, n, hn, hrows⟩ := applyLinks_records c e hlinks
  have hrevoked : ∀ i, tables.revoked i = db.tables.revoked i := by
    intro i
    rw [EvidenceDb.revoked, hrevocations, EvidenceDb.revoked]
  have hfresh := hstored.not_revoked hn
  have hactive : ∀ row, (row ∈ db'.tables.claimEvidenceForAssessment c ∧ e.Records c row) ↔
      (row ∈ tables.evidence ∧ e.Records c row) ∧ db.tables.revoked row.id = false := by
    intro row
    rw [EvidenceDb.mem_claimEvidenceForAssessment, hsame, EvidenceDb.mem_activeEvidence,
      hrevoked]
    constructor
    · rintro ⟨⟨hin, -, hr⟩, hrec⟩
      exact ⟨⟨hin, hrec⟩, hr⟩
    · rintro ⟨⟨hin, hrec⟩, hr⟩
      exact ⟨⟨hin, hrec.1, hr⟩, hrec⟩
  constructor
  · rintro ⟨row, hrow, hrec, hrel⟩
    obtain ⟨hin, hr⟩ := (hactive row).mp ⟨hrow, hrec⟩
    rcases (hrows row).mp hin with ⟨hold, -⟩ | ⟨hnone, e', hfirst, rfl⟩
    · exact .inl ⟨row, EvidenceDb.mem_activeEvidence.mpr ⟨hold, hrec.1, hr⟩, hrec, hrel⟩
    · exact .inr ⟨hnone, e', hfirst, hrel⟩
  · rintro (⟨row, hrow, hrec, hrel⟩ | ⟨hnone, e', hfirst, hrel⟩)
    · obtain ⟨hold, -, hr⟩ := EvidenceDb.mem_activeEvidence.mp hrow
      obtain ⟨hin, -⟩ := (hactive row).mpr ⟨(hrows row).mpr (.inl ⟨hold, hrec⟩), hr⟩
      exact ⟨row, hin, hrec, hrel⟩
    · obtain ⟨hin, hrec⟩ := (hactive _).mpr
        ⟨(hrows _).mpr (.inr ⟨hnone, e', hfirst, rfl⟩), hfresh⟩
      exact ⟨_, hin, hrec, hrel⟩

/-- **What becomes of a link.** A link that is reported without a problem leaves a row of
its record, in its relation and among those the assessment reads, exactly when the record's
row has that relation: the row that is stored and not revoked, or, where none is stored,
the row of the commit's first link to the record. -/
theorem staged_relation_iff {host : Host} {db db' : MemoryDb} {statements : ClaimId → Text}
    {pin : SnapshotId} {ops : List ProposedClaim} {links : List EvidenceLink}
    {res : MemoryApplyResult} {snapshot : ConfigSnapshot} (hstored : db.tables.RevokesStored)
    (h : db.applyClaimStaging host statements pin ops links = .ok (db', res))
    (hsnapshot : db.snapshot? pin = some snapshot) :
    ∀ link ∈ links, ∀ e c, link.evidence = some e →
      link.claim ((stageOps host snapshot.rules (db.corpus statements pin) ops).map
        (·.claim)) = some c →
      ((∃ row ∈ db'.tables.claimEvidenceForAssessment c, e.Records c row ∧
        row.relation = e.relation) ↔
      KeepsRelation db.tables.toEvidenceDb
        ((stageOps host snapshot.rules (db.corpus statements pin) ops).map (·.claim)) links c
        e) := by
  intro link _ e c _ hc
  refine relation_kept_iff hstored h hsnapshot ?_ e c
  rintro rfl
  simp [EvidenceLink.claim, stageOps] at hc

end MemoryDb

/-! ## Support and a counter of one record -/

/-- What the page says about the first claim of the commit. -/
def readRecord (relation : EvidenceRelation) (identityHash : String) : Evidence :=
  ⟨0, 0, relation, "source_assertion", identityHash, ∅, some 1, none⟩

def readLink (relation : EvidenceRelation) (identityHash : String) : EvidenceLink :=
  ⟨0, some (readRecord relation identityHash)⟩

/-- Claim `1` in the first commit. -/
def statedFact : ProposedClaim := ⟨⟨['a'], "fact", none⟩, 1, false, ∅, []⟩

theorem pageWorld_revokes : pageWorld.db.tables.RevokesStored :=
  List.forall_mem_nil _

/-- The counter comes before the support of its record, and has its row. -/
theorem staged_relation_iff_countered : ∃ db' res,
    pageWorld.db.applyClaimStaging plainHost pageWorld.statements 0 [statedFact]
      [readLink .supports "a", readLink .counters "b", readLink .supports "b"] =
        .ok (db', res) ∧ res.linkProblems = [] ∧
    ∃ row ∈ db'.tables.claimEvidenceForAssessment 1,
      (readRecord .counters "b").Records 1 row ∧ row.relation = .counters := by
  refine ⟨_, _, rfl, rfl, ?_⟩
  have hkept := @MemoryDb.staged_relation_iff plainHost pageWorld.db _ pageWorld.statements 0
    [statedFact] [readLink .supports "a", readLink .counters "b", readLink .supports "b"] _ _
    pageWorld_revokes rfl rfl (readLink .counters "b")
    (List.mem_cons_of_mem _ List.mem_cons_self) _ 1 rfl rfl
  exact hkept.mpr (.inr ⟨List.forall_mem_nil _, _, rfl, rfl⟩)

/-- The support comes first: the counter leaves no row, and no problem is reported. -/
theorem counter_absorbed : ¬ ∀ (host : Host) (db db' : MemoryDb) (statements : ClaimId → Text)
    (pin : SnapshotId) (ops : List ProposedClaim) (links : List EvidenceLink)
    (res : MemoryApplyResult) (snapshot : ConfigSnapshot),
    db.tables.RevokesStored →
    db.applyClaimStaging host statements pin ops links = .ok (db', res) →
    db.snapshot? pin = some snapshot → res.linkProblems = [] →
    ∀ link ∈ links, ∀ e c, link.evidence = some e →
      link.claim ((MemoryDb.stageOps host snapshot.rules (db.corpus statements pin) ops).map
        (·.claim)) = some c →
      ∃ row ∈ db'.tables.claimEvidenceForAssessment c, e.Records c row ∧
        row.relation = e.relation := by
  intro h
  obtain ⟨row, hrow, hrec, hrel⟩ := h plainHost pageWorld.db _ pageWorld.statements 0
    [statedFact] [readLink .supports "b", readLink .counters "b"] _
    (pageWorld.db.snapshots.head (List.cons_ne_nil _ _)) pageWorld_revokes rfl rfl rfl
    (readLink .counters "b") (List.mem_cons_of_mem _ (List.mem_singleton_self _)) _ 1 rfl rfl
  rw [EvidenceDb.mem_claimEvidenceForAssessment, EvidenceDb.mem_activeEvidence] at hrow
  obtain ⟨hin, -⟩ := hrow
  rw [List.mem_singleton.mp hin] at hrel
  cases hrel

end Noezema.Memory
