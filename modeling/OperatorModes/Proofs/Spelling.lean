import OperatorModes.Document.Effect
import OperatorModes.Proofs.Json.Run
import OperatorModes.Proofs.Json.Variant
import OperatorModes.Proofs.Text.Words

/-!
# The two readers of a qualifier

A qualifier is named in source text, where white space is free, and in documents, where it is not. The
one reader goes through the qualifiers and compares their names and keywords, the other looks a string
up in a table of names. Both come to the same table (`parse?_eq_lookupEntry`), in which every entry is
a name or a keyword of its qualifier and none stands for two; only what is looked up differs, and only
by white space:

> `parse_eq_ok_iff`: source text is read by its words,
> `read_eq_ok_iff`: a document by the string it holds.
-/

namespace OperatorModes

open Text (SameWords SingleSpaced)

/-! ## Names in documents -/

namespace Json

variable {τ : Type} {known : List (String × τ)}

/-- However the string is spelled in the document, the variant is the one that it names. -/
theorem readAll_variant {document s : String} (h : readAll text document = .ok s) :
    readAll (variant known) document = pick known s := by
  obtain ⟨rest, htext, hrest⟩ := readAll_eq_ok_iff.mp h
  unfold text at htext
  split at htext
  · next inner hskip =>
    have hvariant : variant known depthLimit document.toList
        = pick known s >>= fun t => .ok (t, rest) := by
      rw [variant.eq_def]
      simp only [hskip]
      rw [htext]
      rfl
    unfold readAll
    rw [hvariant]
    cases pick known s with
    | error e => rfl
    | ok t =>
      show (if (skipSpace rest).isEmpty then Except.ok t else _) = _
      rw [hrest]
      rfl
  · cases htext

/-- The document of a string holds that string. -/
theorem readAll_text_compact (s : String) : readAll text (Json.str s).compact = .ok s :=
  (readAll_compact (reads_text s)).trans (if_pos (Nat.zero_le _))

end Json

namespace Qualifier

/-! ## The table of names -/

/-- The text is the name of the qualifier, or its keyword. -/
def NamedBy (q : Qualifier) (s : String) : Prop := s = q.name ∨ s = q.keyword

/-- The text has the words of the name of the qualifier, or of its keyword. -/
def SpelledBy (q : Qualifier) (s : String) : Prop := SameWords s q.name ∨ SameWords s q.keyword

theorem mem_known_iff {q : Qualifier} {s : String} : (s, q) ∈ known ↔ q.NamedBy s := by
  unfold known NamedBy
  cases q <;> simp [name, keyword, or_comm]

theorem lookupEntry_known_iff {q : Qualifier} {s : String} :
    lookupEntry s known = some q ↔ q.NamedBy s := by
  rw [lookupEntry_eq_some_iff (by decide), mem_known_iff]

theorem mem_all (q : Qualifier) : q ∈ all := by
  cases q <;> decide

theorem find?_all (s : String) :
    (all.find? fun q => q.name == s || q.keyword == s) = lookupEntry s known := by
  have hnames : ∀ q : Qualifier, (q.name == s || q.keyword == s) = true ↔ q.NamedBy s := by
    intro q
    rw [Bool.or_eq_true, beq_iff_eq, beq_iff_eq, NamedBy, eq_comm, @eq_comm _ q.keyword]
  cases hfound : all.find? fun q => q.name == s || q.keyword == s with
  | some q =>
    have hq := List.find?_some hfound
    exact (lookupEntry_known_iff.mpr ((hnames q).mp hq)).symm
  | none =>
    refine (Option.eq_none_iff_forall_ne_some.mpr fun q hq => ?_).symm
    exact List.find?_eq_none.mp hfound q (mem_all q) ((hnames q).mpr (lookupEntry_known_iff.mp hq))

/-- Source text is looked up in the table by what it collapses to. -/
theorem parse?_eq_lookupEntry (s : String) : parse? s = lookupEntry (Text.collapse s) known :=
  find?_all (Text.collapse s)

/-! ## The two readers -/

theorem singleSpaced_name (q : Qualifier) : SingleSpaced q.name := by
  cases q <;> decide

theorem singleSpaced_keyword (q : Qualifier) : SingleSpaced q.keyword := by
  cases q <;> decide

theorem namedBy_collapse_iff {q : Qualifier} {s : String} :
    q.NamedBy (Text.collapse s) ↔ q.SpelledBy s :=
  or_congr (Text.collapse_eq_iff q.singleSpaced_name) (Text.collapse_eq_iff q.singleSpaced_keyword)

theorem parse?_eq_some_iff {q : Qualifier} {s : String} : parse? s = some q ↔ q.SpelledBy s := by
  rw [parse?_eq_lookupEntry, lookupEntry_known_iff, namedBy_collapse_iff]

theorem parse_eq_ok_iff {q : Qualifier} {s : String} : parse s = .ok q ↔ q.SpelledBy s := by
  rw [← parse?_eq_some_iff, parse]
  cases parse? s with
  | none => exact iff_of_false nofun nofun
  | some q' => rw [Except.ok.injEq, Option.some.injEq]

theorem parse_eq_error_iff {fault : UnknownQualifier} {s : String} :
    parse s = .error fault ↔ (∀ q : Qualifier, ¬ q.SpelledBy s) ∧ fault = { given := s } := by
  simp only [← parse?_eq_some_iff, ← Option.eq_none_iff_forall_ne_some]
  rw [parse]
  cases parse? s with
  | none => rw [Except.error.injEq, eq_comm, and_iff_right rfl]
  | some q => exact iff_of_false nofun nofun

theorem SpelledBy.unique {q q' : Qualifier} {s : String} (h : q.SpelledBy s)
    (h' : q'.SpelledBy s) : q = q' :=
  Except.ok.inj ((parse_eq_ok_iff.mpr h).symm.trans (parse_eq_ok_iff.mpr h'))

theorem SpelledBy.congr {q : Qualifier} {s t : String} (hst : SameWords s t) :
    q.SpelledBy s ↔ q.SpelledBy t := by
  have hsame : ∀ n, SameWords s n ↔ SameWords t n := fun n =>
    ⟨fun h => hst.symm.trans h, fun h => hst.trans h⟩
  exact or_congr (hsame q.name) (hsame q.keyword)

theorem NamedBy.spelledBy {q : Qualifier} {s : String} (h : q.NamedBy s) : q.SpelledBy s := by
  rcases h with rfl | rfl
  · exact Or.inl (.refl q.name)
  · exact Or.inr (.refl q.keyword)

/-- Only white space keeps a text with the right words from being a name. -/
theorem SpelledBy.namedBy {q : Qualifier} {s : String} (hs : SingleSpaced s)
    (h : q.SpelledBy s) : q.NamedBy s :=
  h.imp (hs.eq_of_sameWords q.singleSpaced_name) (hs.eq_of_sameWords q.singleSpaced_keyword)

theorem read_eq_ok_iff {q : Qualifier} {document s : String}
    (h : Json.readAll Json.text document = .ok s) :
    Json.readAll read document = .ok q ↔ q.NamedBy s := by
  rw [read, Json.readAll_variant h, Json.pick_eq_ok_iff, lookupEntry_known_iff]

/-- **The readers agree.** Source text is read as the one qualifier whose name or keyword has the same
words, so by its words alone, and is handed back as it was given where there is none. A string in a
document is read as the qualifier whose name or keyword it is. So what the reader of documents takes
the other takes for the same, and the other way round where single spaces are all the white space. -/
theorem parse_read_agree (s : String) :
    (∀ q, parse s = .ok q ↔ q.SpelledBy s) ∧
    (∀ fault, parse s = .error fault ↔
      (∀ q : Qualifier, ¬ q.SpelledBy s) ∧ fault = { given := s }) ∧
    (∀ q q' : Qualifier, q.SpelledBy s → q'.SpelledBy s → q = q') ∧
    (∀ t, SameWords s t → ∀ q, parse s = .ok q ↔ parse t = .ok q) ∧
    Json.readAll Json.text (Json.str s).compact = .ok s ∧
    ∀ document, Json.readAll Json.text document = .ok s →
      (∀ q, Json.readAll read document = .ok q ↔ s = q.name ∨ s = q.keyword) ∧
      (∀ q, Json.readAll read document = .ok q → parse s = .ok q) ∧
      (SingleSpaced s → ∀ q, parse s = .ok q → Json.readAll read document = .ok q) := by
  refine ⟨fun _ => parse_eq_ok_iff, fun _ => parse_eq_error_iff, fun _ _ => SpelledBy.unique,
    fun t hst q => ?_, Json.readAll_text_compact s, fun document hdocument =>
      ⟨fun q => read_eq_ok_iff hdocument, fun q hread => ?_, fun hs q hparse => ?_⟩⟩
  · rw [parse_eq_ok_iff, parse_eq_ok_iff]
    exact SpelledBy.congr hst
  · exact parse_eq_ok_iff.mpr ((read_eq_ok_iff hdocument).mp hread).spelledBy
  · exact (read_eq_ok_iff hdocument).mpr ((parse_eq_ok_iff.mp hparse).namedBy hs)

/-- A keyword with an em space, a line feed and a tab about its words, which no document may have;
and the same keyword in a document, with its space as an escape. -/
theorem parse_read_agree_spread :
    let spread := "\u2003pure\n\tdef "
    let document := " \"pure\\u0020def\"\n"
    SameWords spread "pure def" ∧ parse spread = .ok .pureDef ∧
      Json.readAll Json.text document = .ok "pure def" ∧ SingleSpaced "pure def" ∧
      Json.readAll read document = .ok .pureDef ∧
      (∀ q, Json.readAll read (Json.str spread).compact ≠ .ok q) ∧
      parse "puredef" = .error { given := "puredef" } := by
  intro spread document
  have hspread : SameWords spread "pure def" := by decide
  have hdocument : Json.readAll Json.text document = .ok "pure def" := by decide
  have hsingle : SingleSpaced "pure def" := by decide
  obtain ⟨hparse, -, -, -, -, hread⟩ := parse_read_agree "pure def"
  obtain ⟨hspelled, -, -, hwords, hcompact, hheld⟩ := parse_read_agree spread
  have hkeyword : parse "pure def" = .ok .pureDef := (hparse .pureDef).mpr (Or.inr (.refl _))
  refine ⟨hspread, (hwords "pure def" hspread .pureDef).mpr hkeyword, hdocument, hsingle,
    (hread document hdocument).2.2 hsingle .pureDef hkeyword, fun q hq => ?_, ?_⟩
  · have hnamed := ((hheld _ hcompact).1 q).mp hq
    revert hnamed
    cases q <;> decide
  · refine ((parse_read_agree "puredef").2.1 _).mpr ⟨fun q => ?_, rfl⟩
    unfold SpelledBy
    cases q <;> decide

end Qualifier

end OperatorModes
