import ShapeScribe.Proofs.Attempt
import ShapeScribe.Proofs.Directory
import ShapeScribe.Store.Basic

/-!
What the store gives back for a route id: the record that the file of the id holds, if it is about this id.
-/

namespace ShapeScribe

open Attempt

-- What is put together from characters is read as these, without the bytes that stand for them in between.
theorem Yaml.members?_ofList (cs : List Char) :
    members? (String.ofList cs) =
      Document.ofTokens (
        if cs.all Token.isPrintable then Tokenization.run (Cursor.ofChars cs).fuel { cursor := .ofChars cs }
        else ⟨[], .error .malformed⟩) >>= Document.members? := by
  rw [members?, Document.ofText, Tokens.ofText, String.toList_ofList]
  rfl

namespace Record

variable {now later : Moment} {member? : String → Option Raw} {r : Record} {text : String} {found : Option Record}

theorem field_later {α : Type} {name : String} {read : Raw → Except Complaint α} {default other a : α}
    {raw? : Option Raw} (h : Validated.field name read (some default) raw? = .ok a) :
    ∃ b, Validated.field name read (some other) raw? = .ok b ∧ (a ≠ default → b = a) := by
  cases raw? with
  | none => exact ⟨other, rfl, fun hne => absurd (Except.ok.inj h).symm hne⟩
  | some raw => exact ⟨a, h, fun _ => rfl⟩

-- The moment of reading shows only in records without a moment of their own.
theorem ofMembers_later (later : Moment) (h : ofMembers now member? = .ok r) :
    ∃ updated, ofMembers later member? = .ok ⟨r.declaration, updated⟩ ∧ (r.updated ≠ now → updated = r.updated) := by
  simp only [ofMembers, except_map_eq_ok, Validated.and_eq_ok] at h ⊢
  obtain ⟨⟨routeId, routeName, typeName, typeDefinition, sampleCount, signature, updated⟩,
    ⟨hid, hname, htype, hdefinition, hcount, hsignature, hupdated⟩, rfl⟩ := h
  obtain ⟨moment, hmoment, hsame⟩ := field_later hupdated
  exact ⟨moment, ⟨(routeId, routeName, typeName, typeDefinition, sampleCount, signature, moment),
    ⟨hid, hname, htype, hdefinition, hcount, hsignature, hmoment⟩, rfl⟩, hsame⟩

theorem ofText_of_ne (h : ofText now text = .ok (some r)) (hne : r.updated ≠ now) :
    ofText later text = .ok (some r) := by
  unfold ofText at h ⊢
  split at h
  · rename_i members hmembers
    cases hread : ofMembers now fun name => Named.get? name members with
    | error issues => simp [hread, Except.toOption] at h
    | ok found =>
        simp only [hread, Except.toOption, Except.ok.injEq, Option.some.injEq] at h
        subst h
        obtain ⟨updated, hlater, hsame⟩ := ofMembers_later later hread
        simp [hlater, hsame hne, Except.toOption]
  · cases h
  · cases h
  · cases h

theorem ofText_later (later : Moment) (h : ofText now text = .ok found) :
    ∃ found', ofText later text = .ok found' ∧ found'.map (·.declaration) = found.map (·.declaration) := by
  unfold ofText at h ⊢
  split at h
  · rename_i members hmembers
    cases hread : ofMembers now fun name => Named.get? name members with
    | error issues =>
        cases hlater : ofMembers later fun name => Named.get? name members with
        | error others => exact ⟨none, rfl, by simp_all [Except.toOption]⟩
        | ok r =>
            obtain ⟨updated, hnow, _⟩ := ofMembers_later now hlater
            cases hread.symm.trans hnow
    | ok r =>
        obtain ⟨updated, hlater, _⟩ := ofMembers_later later hread
        simp only [hread, Except.toOption, Except.ok.injEq] at h
        exact ⟨some ⟨r.declaration, updated⟩, by simp [hlater, Except.toOption], by simp [← h]⟩
  · exact ⟨none, rfl, by cases h; rfl⟩
  · exact ⟨none, rfl, by cases h; rfl⟩
  · cases h

end Record

namespace Store

variable {id : String} {d e : Directory} {now later : Moment} {r : Record} {previous : Option String}

theorem find_eq_ok {entry : Option Entry} :
    find id d = .ok entry ↔ Directory.fits (fileName id) = true ∧ d.get? (fileName id) = entry := by
  rw [← Directory.find_eq_ok]
  exact mapError_eq_ok

theorem load_eq_some :
    load now id d = .ok (some r) ↔ Directory.fits (fileName id) = true ∧
      ∃ text, d.get? (fileName id) = some (.file text) ∧ Record.ofText now text = .ok (some r) ∧
        r.declaration.routeId = id := by
  simp only [load, bind_eq_ok, find_eq_ok]
  constructor
  · rintro ⟨entry, ⟨hfits, rfl⟩, h⟩
    split at h
    · cases h
    rename_i entry hentry
    obtain ⟨found, hread, hfound⟩ := bind_eq_ok.mp h
    obtain ⟨rfl, hid⟩ := Option.filter_eq_some_iff.mp (pure_eq_ok.mp hfound)
    cases entry with
    | folder => cases hread
    | file text =>
        exact ⟨hfits, text, hentry, mapError_eq_ok.mp hread, by simpa [belongsTo] using hid⟩
  · rintro ⟨hfits, text, hfile, hread, hid⟩
    refine ⟨_, ⟨hfits, hfile⟩, ?_⟩
    simp [read, hread, Except.mapError, belongsTo, hid]

theorem signatureOf_eq_ok :
    signatureOf now id d = .ok previous ↔ ∃ r, load now id d = .ok r ∧ r.map (·.declaration.signature) = previous := by
  simp [signatureOf]

theorem fits_of_load {found : Option Record} (h : load now id d = .ok found) :
    Directory.fits (fileName id) = true := by
  obtain ⟨_, hfind, _⟩ := bind_eq_ok.mp h
  exact (find_eq_ok.mp hfind).1

theorem read_later {entry : Entry} {found : Option Record} (later : Moment) (h : read now entry = .ok found) :
    ∃ found', read later entry = .ok found' ∧ found'.map (·.declaration) = found.map (·.declaration) := by
  cases entry with
  | folder => exact ⟨none, rfl, by cases h; rfl⟩
  | file text =>
      obtain ⟨found', hlater, hsame⟩ := Record.ofText_later later (mapError_eq_ok.mp h)
      exact ⟨found', mapError_eq_ok.mpr hlater, hsame⟩

-- Only the file of the route counts, and not when it is read.
theorem load_congr (h : d.get? (fileName id) = e.get? (fileName id)) : load now id d = load now id e := by
  simp only [load, find, Directory.find, h]

theorem signatureOf_congr (h : d.get? (fileName id) = e.get? (fileName id)) :
    signatureOf now id d = signatureOf now id e := by
  simp only [signatureOf, load_congr h]

theorem contains_congr (h : d.get? (fileName id) = e.get? (fileName id)) : contains id d = contains id e := by
  simp only [contains, find, Directory.find, h]

theorem map_filter_belongsTo (found : Option Record) :
    (found.filter (belongsTo id)).map (·.declaration.signature) =
      ((found.map (·.declaration)).filter (·.routeId = id)).map (·.signature) := by
  cases found with
  | none => rfl
  | some r => by_cases hid : r.declaration.routeId = id <;> simp [Option.filter, belongsTo, hid]

theorem signatureOf_later (h : signatureOf now id d = .ok previous) : signatureOf later id d = .ok previous := by
  obtain ⟨r, hload, hsignature⟩ := signatureOf_eq_ok.mp h
  obtain ⟨entry, hfind, hread⟩ := bind_eq_ok.mp hload
  cases entry with
  | none =>
      cases hread
      exact signatureOf_eq_ok.mpr ⟨none, by simp [load, hfind, pure, Except.pure], hsignature⟩
  | some entry =>
      obtain ⟨found, hfound, hfilter⟩ := bind_eq_ok.mp hread
      obtain ⟨found', hfound', hsame⟩ := read_later later hfound
      refine signatureOf_eq_ok.mpr ⟨found'.filter (belongsTo id), by simp [load, hfind, hfound'], ?_⟩
      rw [← hsignature, ← pure_eq_ok.mp hfilter, map_filter_belongsTo, map_filter_belongsTo, hsame]

theorem signatureOf_of_file (hfits : Directory.fits (fileName r.declaration.routeId) = true)
    (hfile : d.get? (fileName r.declaration.routeId) = some (.file r.text))
    (hread : Record.ofText now r.text = .ok (some r)) :
    signatureOf now r.declaration.routeId d = .ok (some r.declaration.signature) :=
  signatureOf_eq_ok.mpr ⟨some r, load_eq_some.mpr ⟨hfits, r.text, hfile, hread, rfl⟩, rfl⟩

end Store

end ShapeScribe
