import FilmCatalog.Database.Fault
import Mathlib

/-!
# What a client sees of a fault of the database

A fault passes through the store and the service before a client sees it. Three
codes are the caller's doing, and only of faults with these codes does the client
see a text of the database: the violated constraint or the message. Every other
fault is a missing row or internal, and both kinds have one text each. Two faults of
such a kind therefore look the same to a client, whatever they say.

Key definitions: `DatabaseFault.report`, `DatabaseFault.ByCaller`.
Key theorems: `DatabaseFault.report_of_not_byCaller`, `DatabaseFault.details_stay_inside`.
-/

namespace FilmCatalog.DatabaseFault

/-- A fault as a service reports it. -/
def report (e : DatabaseFault) : ServiceError := .ofStore e.toStoreError

/-- Whether a fault is the caller's doing. -/
def ByCaller : DatabaseFault → Prop
  | .reported f => f.code = "23505" ∨ f.code = "23503" ∨ f.code = "22P02"
  | _ => False

variable {e : DatabaseFault} {f : ReportedFault}

/-! ## Faults of the caller -/

theorem report_duplicate (h : f.code = "23505") :
    (reported f).report =
      .validation ("duplicate value for `" ++ f.constraint.getD "unknown" ++ "`") := by
  have hunique : f.code = ReportedFault.uniqueViolation := h
  rw [report, toStoreError, ReportedFault.toStoreError, if_pos hunique]
  rfl

theorem report_invalidInput (h : f.code = "23503" ∨ f.code = "22P02") :
    (reported f).report = .validation f.message := by
  have hunique : f.code ≠ ReportedFault.uniqueViolation := by
    rcases h with h | h <;> rw [h] <;> decide
  have hinvalid : f.code = ReportedFault.foreignKeyViolation ∨
      f.code = ReportedFault.invalidText := h
  rw [report, toStoreError, ReportedFault.toStoreError, if_neg hunique, if_pos hinvalid]
  rfl

/-! ## All others -/

/-- A reported fault with another code is unexpected, be it cancelled, a violated
constraint or anything else. -/
theorem report_reported (h : ¬(reported f).ByCaller) :
    ∃ text, (reported f).report = .unexpected text := by
  obtain ⟨hunique, hinvalid⟩ : f.code ≠ ReportedFault.uniqueViolation ∧
      ¬(f.code = ReportedFault.foreignKeyViolation ∨ f.code = ReportedFault.invalidText) :=
    not_or.1 h
  rw [report, toStoreError, ReportedFault.toStoreError, if_neg hunique, if_neg hinvalid]
  split
  · exact ⟨_, rfl⟩
  split
  · exact ⟨_, rfl⟩
  · exact ⟨_, rfl⟩

/-- A fault that is not the caller's doing is a missing row or unexpected. -/
theorem report_of_not_byCaller (h : ¬e.ByCaller) :
    e = .rowNotFound ∧ e.report = .notFound ∨
      e ≠ .rowNotFound ∧ ∃ text, e.report = .unexpected text := by
  cases e with
  | rowNotFound => exact .inl ⟨rfl, rfl⟩
  | reported f => exact .inr ⟨nofun, report_reported h⟩
  | _ => exact .inr ⟨nofun, _, rfl⟩

/-- A fault of the caller is one of validation. -/
theorem kind_of_byCaller (h : e.ByCaller) : e.report.kind = .validation := by
  cases e with
  | reported f =>
    rcases h with h | h
    · rw [report_duplicate h]
      rfl
    · rw [report_invalidInput h]
      rfl
  | _ => exact h.elim

/-- A missing row is the only fault that is not found. -/
theorem kind_eq_notFound_iff : e.report.kind = .notFound ↔ e = .rowNotFound := by
  by_cases hcaller : e.ByCaller
  · refine iff_of_false (by simp [kind_of_byCaller hcaller]) ?_
    rintro rfl
    exact hcaller
  · obtain ⟨heq, hreport⟩ | ⟨hne, text, hreport⟩ := report_of_not_byCaller hcaller
    · exact iff_of_true (by rw [hreport]; rfl) heq
    · exact iff_of_false (by simp [hreport, ServiceError.kind]) hne

/-- The kind of a fault that is not the caller's doing settles what a client sees. -/
theorem publicMessage_of_not_byCaller (h : ¬e.ByCaller) :
    e.report.publicMessage =
      if e = .rowNotFound then "resource not found" else "internal error" := by
  obtain ⟨heq, hreport⟩ | ⟨hne, text, hreport⟩ := report_of_not_byCaller h
  · rw [if_pos heq, hreport]
    rfl
  · rw [if_neg hne, hreport]
    rfl

/-- A client sees text of the database only where the code is one of three: the name
of the constraint for a duplicate, the message for a missing reference or a text that
denotes no value. All other faults show the one text of their kind, so two of one
kind cannot be told apart, and only a missing row is not found. -/
theorem details_stay_inside (e : DatabaseFault) :
    (∀ f, e = .reported f → f.code = "23505" → e.report.publicMessage =
      "validation failed: duplicate value for `" ++ f.constraint.getD "unknown" ++ "`") ∧
    (∀ f, e = .reported f → f.code = "23503" ∨ f.code = "22P02" →
      e.report.publicMessage = "validation failed: " ++ f.message) ∧
    (e.report.kind = .validation ↔ e.ByCaller) ∧
    (e.report.kind = .notFound ↔ e = .rowNotFound) ∧
    (¬e.ByCaller → e.report.publicMessage =
      if e = .rowNotFound then "resource not found" else "internal error") ∧
    ∀ e' : DatabaseFault, ¬e.ByCaller → ¬e'.ByCaller → e.report.kind = e'.report.kind →
      e.report.publicMessage = e'.report.publicMessage := by
  refine ⟨?_, ?_, ⟨fun hkind => ?_, kind_of_byCaller⟩, kind_eq_notFound_iff,
    publicMessage_of_not_byCaller, fun e' h h' hkind => ?_⟩
  · rintro f rfl hcode
    rw [report_duplicate hcode, ServiceError.publicMessage]
    exact (String.append_assoc ..).symm
  · rintro f rfl hcode
    rw [report_invalidInput hcode]
    rfl
  · by_contra hcaller
    obtain ⟨-, hreport⟩ | ⟨-, text, hreport⟩ := report_of_not_byCaller hcaller
    · simp [hreport, ServiceError.kind] at hkind
    · simp [hreport, ServiceError.kind] at hkind
  · have hrow : e = .rowNotFound ↔ e' = .rowNotFound := by
      rw [← kind_eq_notFound_iff, hkind, kind_eq_notFound_iff]
    rw [publicMessage_of_not_byCaller h, publicMessage_of_not_byCaller h', if_congr hrow rfl rfl]

/-- A violated check shows nothing of itself, and cannot be told from a closed pool. -/
theorem check_is_hidden :
    let check := reported ⟨"23514", "value 7 is out of range", some "photos_width_check"⟩
    let unique := reported ⟨"23505", "key (name) exists", some "authors_name_key"⟩
    ¬check.ByCaller ∧ check.report.publicMessage = poolClosed.report.publicMessage ∧
      check.report.publicMessage = "internal error" ∧
      unique.report.publicMessage =
        "validation failed: duplicate value for `" ++ "authors_name_key" ++ "`" := by
  intro check unique
  have hcheck : ¬check.ByCaller := by
    rintro (h | h | h) <;> exact absurd h (by decide)
  obtain ⟨-, -, -, -, hmessage, hsame⟩ := details_stay_inside check
  exact ⟨hcheck, hsame poolClosed hcheck id rfl, hmessage hcheck,
    (details_stay_inside unique).1 _ rfl rfl⟩

end FilmCatalog.DatabaseFault
