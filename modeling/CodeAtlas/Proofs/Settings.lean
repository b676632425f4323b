import CodeAtlas.Proofs.Value.Distinct
import CodeAtlas.Settings

/-!
# Settings over the defaults

A settings file that can be used gives each language the default entry, unless a section
with a command takes its place. Such a section is read against the default entry alone,
since no document has two sections for one language: that much is asked of the reader of
documents, and nothing else. A file can be used if it is text, the reader reads it or
calls it malformed, there is a table in the place of its servers, and no section with a
command has arguments that cannot be listed. All other files are errors.
-/

namespace CodeAtlas.Settings

open CodeAtlas.Text (unifyLineEnds)

variable {ε : Type}

/-- The command that a section leaves: its own, or else that of the entry below. -/
def commandOver (base : Option ServerConfig) (fields : List (String × Value)) : Value :=
  (fields.lookup "command").getD ((base.map ServerConfig.command).getD (.text ""))

/-- An entry has what a section gives, and else what the entry below has. -/
structure Overrides (base : Option ServerConfig) (language : String)
    (fields : List (String × Value)) (c : ServerConfig) : Prop where
  language : c.language = language
  command : c.command = commandOver base fields
  givenArgs : ∀ raw, fields.lookup "args" = some raw → argumentList? raw = some c.args
  otherArgs : fields.lookup "args" = none → c.args = (base.map ServerConfig.args).getD []
  enabled : c.enabled = ((fields.lookup "enabled").map Value.isGiven).getD true

/-- What a section makes of the entry below it. Without a table or a command it changes nothing. -/
inductive Gives (base : Option ServerConfig) (language : String) :
    Value → Option ServerConfig → Prop
  | noTable {raw : Value} (h : ∀ fields, raw ≠ .record fields) : Gives base language raw base
  | noCommand {fields : List (String × Value)} (h : (commandOver base fields).isGiven = false) :
    Gives base language (.record fields) base
  | entry {fields : List (String × Value)} {c : ServerConfig}
    (hcommand : (commandOver base fields).isGiven = true)
    (h : Overrides base language fields c) : Gives base language (.record fields) (some c)

/-- Lists, texts and tables can be listed. -/
inductive Listable : Value → Prop
  | list (items : List Value) : Listable (.list items)
  | text (s : String) : Listable (.text s)
  | record (fields : List (String × Value)) : Listable (.record fields)

theorem listable_iff {v : Value} : Listable v ↔ ∃ items, argumentList? v = some items := by
  constructor
  · rintro (_ | _ | _) <;> exact ⟨_, rfl⟩
  · rintro ⟨items, h⟩
    cases v with
    | list items => exact .list items
    | text s => exact .text s
    | record fields => exact .record fields
    | null | boolean | integer | real => cases h

/-- A section with a command must give arguments that can be listed, if it gives some. -/
def Accepts (base : Option ServerConfig) (raw : Value) : Prop :=
  ∀ fields, raw = .record fields → (commandOver base fields).isGiven = true →
    ∀ args, fields.lookup "args" = some args → Listable args

/-- The arguments that a section leaves. -/
def argsOver (base : Option ServerConfig) (fields : List (String × Value)) :
    Option (List Value) :=
  argumentList? ((fields.lookup "args").getD (.list ((base.map ServerConfig.args).getD [])))

theorem applySection_record (t : Table ServerConfig) (language : String)
    (fields : List (String × Value)) :
    applySection (ε := ε) t language (.record fields) =
      if (commandOver (t.get? language) fields).isGiven then
        match argsOver (t.get? language) fields with
        | some args => .ok (t.insert language {
            language
            command := commandOver (t.get? language) fields
            args
            enabled := ((fields.lookup "enabled").map Value.isGiven).getD true })
        | none => .error .badArguments
      else .ok t := rfl

theorem applySection_of_not_record {raw : Value} (h : ∀ fields, raw ≠ .record fields)
    (t : Table ServerConfig) (language : String) :
    applySection (ε := ε) t language raw = .ok t := by
  cases raw with
  | record fields => exact absurd rfl (h fields)
  | null | boolean | integer | real | text | list => rfl

/-- A section changes the entry of its language, and no other. -/
theorem applySection_gives {t t' : Table ServerConfig} {language : String} {raw : Value}
    (h : applySection (ε := ε) t language raw = .ok t') :
    Gives (t.get? language) language raw (t'.get? language) ∧
      ∀ other, other ≠ language → t'.get? other = t.get? other := by
  by_cases hraw : ∃ fields, raw = .record fields
  · obtain ⟨fields, rfl⟩ := hraw
    rw [applySection_record] at h
    split at h
    next hcommand =>
      split at h
      next args hargs =>
        cases h
        constructor
        · rw [Table.get?_insert, if_pos rfl]
          refine .entry hcommand ⟨rfl, rfl, ?_, ?_, rfl⟩
          · intro raw hraw
            rwa [argsOver, hraw] at hargs
          · intro hnone
            rw [argsOver, hnone] at hargs
            cases hargs
            rfl
        · intro other hother
          rw [Table.get?_insert, if_neg hother]
      next => cases h
    next hcommand =>
      cases h
      exact ⟨.noCommand (by simpa using hcommand), fun _ _ => rfl⟩
  · have hno : ∀ fields, raw ≠ .record fields := fun fields heq => hraw ⟨fields, heq⟩
    rw [applySection_of_not_record hno] at h
    cases h
    exact ⟨.noTable hno, fun _ _ => rfl⟩

theorem exists_argsOver (base : Option ServerConfig) {fields : List (String × Value)}
    (h : ∀ args, fields.lookup "args" = some args → Listable args) :
    ∃ items, argsOver base fields = some items := by
  rw [argsOver]
  cases hargs : fields.lookup "args" with
  | none => exact ⟨_, rfl⟩
  | some args => exact listable_iff.mp (h args hargs)

theorem applySection_ok_iff {t : Table ServerConfig} {language : String} {raw : Value} :
    (∃ t', applySection (ε := ε) t language raw = .ok t') ↔ Accepts (t.get? language) raw := by
  constructor
  · rintro ⟨t', h⟩ fields rfl hcommand args hargs
    obtain ⟨hgives, -⟩ := applySection_gives h
    generalize t'.get? language = entry at hgives
    cases hgives with
    | noTable hno => exact absurd rfl (hno fields)
    | noCommand hnot => simp [hcommand] at hnot
    | entry _ hentry => exact listable_iff.mpr ⟨_, hentry.givenArgs args hargs⟩
  · intro h
    by_cases hraw : ∃ fields, raw = .record fields
    · obtain ⟨fields, rfl⟩ := hraw
      rw [applySection_record]
      split
      next hcommand =>
        obtain ⟨items, hitems⟩ := exists_argsOver (t.get? language) (h fields rfl hcommand)
        rw [hitems]
        exact ⟨_, rfl⟩
      next => exact ⟨t, rfl⟩
    · exact ⟨t, applySection_of_not_record (fun fields heq => hraw ⟨fields, heq⟩) t language⟩

/-- Each section is read against the entry that was there before all sections: those in front of it
have other languages. -/
theorem foldlM_applySection_gives {sections : List (String × Value)}
    (hkeys : (sections.map Prod.fst).Nodup) {t t' : Table ServerConfig}
    (h : sections.foldlM (fun t p => applySection (ε := ε) t p.1 p.2) t = .ok t') :
    (∀ p ∈ sections, Gives (t.get? p.1) p.1 p.2 (t'.get? p.1)) ∧
      ∀ language, language ∉ sections.map Prod.fst → t'.get? language = t.get? language := by
  induction sections generalizing t with
  | nil =>
    cases h
    exact ⟨by simp, fun _ _ => rfl⟩
  | cons p sections ih =>
    obtain ⟨hp, hkeys⟩ := List.nodup_cons.mp hkeys
    rw [List.foldlM_cons, bind_eq_ok_iff] at h
    obtain ⟨u, hfirst, hrest⟩ := h
    obtain ⟨hgives, hothers⟩ := applySection_gives hfirst
    obtain ⟨ihgives, ihothers⟩ := ih hkeys hrest
    constructor
    · intro q hq
      rcases List.mem_cons.mp hq with rfl | hq
      · rwa [ihothers q.1 hp]
      · have hne : q.1 ≠ p.1 := fun heq => hp (heq ▸ List.mem_map_of_mem hq)
        rw [← hothers q.1 hne]
        exact ihgives q hq
    · intro language hlanguage
      obtain ⟨hne, hlanguage⟩ : language ≠ p.1 ∧ language ∉ sections.map Prod.fst := by
        simpa only [List.map_cons, List.mem_cons, not_or] using hlanguage
      rw [ihothers language hlanguage, hothers language hne]

theorem foldlM_applySection_ok_iff {sections : List (String × Value)}
    (hkeys : (sections.map Prod.fst).Nodup) {t : Table ServerConfig} :
    (∃ t', sections.foldlM (fun t p => applySection (ε := ε) t p.1 p.2) t = .ok t') ↔
      ∀ p ∈ sections, Accepts (t.get? p.1) p.2 := by
  induction sections generalizing t with
  | nil => exact ⟨by simp, fun _ => ⟨t, rfl⟩⟩
  | cons p sections ih =>
    obtain ⟨hp, hkeys⟩ := List.nodup_cons.mp hkeys
    have hsame : ∀ {u}, applySection (ε := ε) t p.1 p.2 = .ok u → ∀ q ∈ sections,
        u.get? q.1 = t.get? q.1 := by
      intro u hu q hq
      exact (applySection_gives hu).2 q.1 fun heq => hp (heq ▸ List.mem_map_of_mem hq)
    simp only [List.foldlM_cons, bind_eq_ok_iff, List.forall_mem_cons]
    constructor
    · rintro ⟨t', u, hu, hrest⟩
      refine ⟨applySection_ok_iff.mp ⟨u, hu⟩, ?_⟩
      intro q hq
      rw [← hsame hu q hq]
      exact (ih hkeys).mp ⟨t', hrest⟩ q hq
    · rintro ⟨hfirst, hrest⟩
      obtain ⟨u, hu⟩ := applySection_ok_iff.mpr hfirst
      obtain ⟨t', ht'⟩ := (ih hkeys (t := u)).mpr fun q hq => by
        rw [hsame hu q hq]
        exact hrest q hq
      exact ⟨t', u, hu, ht'⟩

/-- The document of a settings file. A file that is missing or malformed counts as empty. -/
inductive Holds (reader : Reader ε) : Option (List UInt8) → Value → Prop
  | missing : Holds reader none (.record [])
  | malformed {bytes : List UInt8} {text : List Char} (htext : Text.Utf8.decode bytes = .ok text)
    (h : reader (unifyLineEnds text) = .error .malformed) : Holds reader (some bytes) (.record [])
  | parsed {bytes : List UInt8} {text : List Char} {document : Value}
    (htext : Text.Utf8.decode bytes = .ok text)
    (h : reader (unifyLineEnds text) = .ok document) : Holds reader (some bytes) document

theorem read_eq_ok_iff {reader : Reader ε} {content : Option (List UInt8)} {document : Value} :
    read reader content = .ok document ↔ Holds reader content document := by
  constructor
  · intro h
    unfold read at h
    split at h
    · cases h
      exact .missing
    split at h
    · cases h
    next htext =>
    split at h
    next hparse =>
      cases h
      exact .parsed htext hparse
    next hparse =>
      cases h
      exact .malformed htext hparse
    next => cases h
  · rintro (_ | ⟨htext, hparse⟩ | ⟨htext, hparse⟩)
    · rfl
    · simp only [read, htext, hparse]
    · simp only [read, htext, hparse]

/-- A reader whose documents have no key twice. -/
def Reader.IsDistinct (reader : Reader ε) : Prop :=
  ∀ text document, reader text = .ok document → document.Distinct

/-- A reader that reads a text or calls it malformed. -/
def Reader.IsTotal (reader : Reader ε) : Prop := ∀ text e, reader text ≠ .error (.failed e)

theorem Holds.distinct {reader : Reader ε} {content : Option (List UInt8)} {document : Value}
    (h : Holds reader content document) (hreader : reader.IsDistinct) : document.Distinct := by
  cases h with
  | missing => exact .empty
  | malformed => exact .empty
  | parsed _ hparse => exact hreader _ _ hparse

theorem Reader.IsTotal.exists_holds {reader : Reader ε} (h : reader.IsTotal)
    {bytes : List UInt8} {text : List Char} (htext : Text.Utf8.decode bytes = .ok text) :
    ∃ document, Holds reader (some bytes) document := by
  cases hread : reader (unifyLineEnds text) with
  | ok document => exact ⟨document, .parsed htext hread⟩
  | error refusal =>
    cases refusal with
    | malformed => exact ⟨_, .malformed htext hread⟩
    | failed e => exact absurd hread (h _ e)

/-- The section of a language. -/
def sectionOf? (document : Value) (language : String) : Option Value :=
  (document.field? "servers").bind (·.field? language)

/-- A document that can be laid over the defaults. -/
structure Mergeable (document : Value) : Prop where
  table : ∀ v, document.field? "servers" = some v → ∃ sections, v = .record sections
  sections : ∀ language raw, sectionOf? document language = some raw →
    Accepts (defaults.get? language) raw

section

variable {document : Value} (hdistinct : document.Distinct)

include hdistinct

/-- The sections of a document have distinct languages, so a section is found under its own. -/
theorem nodup_sections {sections : List (String × Value)}
    (h : document.field? "servers" = some (.record sections)) : (sections.map Prod.fst).Nodup := by
  cases document with
  | record fields =>
    cases hdistinct.field h with
    | record hkeys _ => exact hkeys
  | null | boolean | integer | real | text | list => cases h

theorem sectionOf?_eq_some_iff {sections : List (String × Value)}
    (h : document.field? "servers" = some (.record sections)) {language : String} {raw : Value} :
    sectionOf? document language = some raw ↔ (language, raw) ∈ sections := by
  have hlookup : sectionOf? document language = sections.lookup language := by
    rw [sectionOf?, h]
    rfl
  rw [hlookup]
  exact (Table.mem_entries_iff ⟨sections, nodup_sections hdistinct h⟩ language raw).symm

theorem not_mem_of_sectionOf?_eq_none {sections : List (String × Value)}
    (h : document.field? "servers" = some (.record sections)) {language : String}
    (hnone : sectionOf? document language = none) : language ∉ sections.map Prod.fst := by
  intro hmem
  obtain ⟨p, hp, rfl⟩ := List.mem_map.mp hmem
  rw [(sectionOf?_eq_some_iff hdistinct h).mpr hp] at hnone
  cases hnone

theorem servers_ok_iff : (∃ t, servers (ε := ε) document = .ok t) ↔ Mergeable document := by
  cases hfield : document.field? "servers" with
  | none =>
    refine iff_of_true ⟨defaults, by rw [servers, hfield]⟩ ⟨by simp [hfield], ?_⟩
    intro language raw hsection
    simp [sectionOf?, hfield] at hsection
  | some v =>
    by_cases hv : ∃ sections, v = .record sections
    · obtain ⟨sections, rfl⟩ := hv
      have hservers : servers (ε := ε) document =
          sections.foldlM (fun servers p => applySection servers p.1 p.2) defaults := by
        rw [servers, hfield]
      rw [hservers, foldlM_applySection_ok_iff (nodup_sections hdistinct hfield)]
      constructor
      · intro h
        refine ⟨fun w hw => ⟨sections, Option.some.inj (hw.symm.trans hfield)⟩, ?_⟩
        intro language raw hsection
        exact h (language, raw) ((sectionOf?_eq_some_iff hdistinct hfield).mp hsection)
      · intro h p hp
        exact h.sections p.1 p.2 ((sectionOf?_eq_some_iff hdistinct hfield).mpr hp)
    · refine iff_of_false ?_ fun h => hv (h.table v hfield)
      rintro ⟨t, ht⟩
      rw [servers, hfield] at ht
      cases v with
      | record sections => exact hv ⟨sections, rfl⟩
      | null | boolean | integer | real | text | list => cases ht

theorem servers_gives {t : Table ServerConfig} (h : servers (ε := ε) document = .ok t)
    (language : String) :
    (sectionOf? document language = none → t.get? language = defaults.get? language) ∧
      ∀ raw, sectionOf? document language = some raw →
        Gives (defaults.get? language) language raw (t.get? language) := by
  cases hfield : document.field? "servers" with
  | none =>
    rw [servers, hfield] at h
    cases h
    refine ⟨fun _ => rfl, ?_⟩
    intro raw hsection
    simp [sectionOf?, hfield] at hsection
  | some v =>
    obtain ⟨sections, rfl⟩ := ((servers_ok_iff hdistinct).mp ⟨t, h⟩).table v hfield
    rw [servers, hfield] at h
    obtain ⟨hgives, hothers⟩ := foldlM_applySection_gives (nodup_sections hdistinct hfield) h
    constructor
    · intro hnone
      exact hothers language (not_mem_of_sectionOf?_eq_none hdistinct hfield hnone)
    · intro raw hsection
      exact hgives (language, raw) ((sectionOf?_eq_some_iff hdistinct hfield).mp hsection)

end

theorem load_eq_ok_iff {reader : Reader ε} {content : Option (List UInt8)}
    {t : Table ServerConfig} :
    load reader content = .ok t ↔
      ∃ document, Holds reader content document ∧ servers (ε := ε) document = .ok t := by
  simp only [← read_eq_ok_iff]
  unfold load
  cases read reader content <;> simp

/-- No section takes an entry away. -/
theorem Gives.isSome {base entry : Option ServerConfig} {language : String} {raw : Value}
    (h : Gives base language raw entry) (hbase : base.isSome = true) : entry.isSome = true := by
  cases h with
  | noTable => exact hbase
  | noCommand => exact hbase
  | entry => rfl

/-- Whatever reads the documents, a settings file can be used exactly if its document can be laid
over the defaults, and every text has a document if the reader never fails otherwise. Then every
default language has an entry, a language without a section has its default entry or none, and every
section gives what its table says and takes the rest from the default. -/
theorem load_merges_unless_misplaced (reader : Reader ε) (hreader : reader.IsDistinct)
    (content : Option (List UInt8)) :
    (reader.IsTotal → ∀ bytes text, Text.Utf8.decode bytes = .ok text →
      ∃ document, Holds reader (some bytes) document) ∧
    ((∃ t, load reader content = .ok t) ↔
      ∃ document, Holds reader content document ∧ Mergeable document) ∧
    ∀ t, load reader content = .ok t → ∃ document, Holds reader content document ∧
      (∀ language ∈ defaults.keys, language ∈ t.keys) ∧
      (∀ language, sectionOf? document language = none →
        t.get? language = defaults.get? language) ∧
      ∀ language raw, sectionOf? document language = some raw →
        Gives (defaults.get? language) language raw (t.get? language) := by
  refine ⟨fun htotal bytes text => htotal.exists_holds, ?_, ?_⟩
  · simp only [load_eq_ok_iff]
    constructor
    · rintro ⟨t, document, hholds, ht⟩
      exact ⟨document, hholds, (servers_ok_iff (hholds.distinct hreader)).mp ⟨t, ht⟩⟩
    · rintro ⟨document, hholds, hmergeable⟩
      obtain ⟨t, ht⟩ := (servers_ok_iff (hholds.distinct hreader)).mpr hmergeable
      exact ⟨t, document, hholds, ht⟩
  · intro t ht
    obtain ⟨document, hholds, ht⟩ := load_eq_ok_iff.mp ht
    have hgives := servers_gives (hholds.distinct hreader) ht
    refine ⟨document, hholds, ?_, fun language => (hgives language).1,
      fun language => (hgives language).2⟩
    intro language hlanguage
    obtain ⟨c, hc⟩ := Table.mem_keys_iff.mp hlanguage
    rw [Table.mem_keys_iff, ← Option.isSome_iff_exists]
    cases hsection : sectionOf? document language with
    | none => rw [(hgives language).1 hsection, hc, Option.isSome_some]
    | some raw => exact ((hgives language).2 raw hsection).isSome (by rw [hc, Option.isSome_some])

theorem isDistinct_tomlReader : tomlReader.IsDistinct := by
  intro text document h
  unfold tomlReader at h
  split at h
  next hparse =>
    cases h
    exact Value.Toml.distinct_parse hparse
  · cases h
  · cases h

/-- A server that is switched off, one without a command, and a new one. -/
def sampleSettings : List UInt8 :=
  Text.Utf8.encode ("[servers.terraform]\nenabled = false\n[servers.tsx]\ncommand = \"\"\n" ++
    "[servers.new]\ncommand = \"n\"\n").toList

def sampleDocument : Value :=
  .record [("servers", .record [("terraform", .record [("enabled", .boolean false)]),
    ("tsx", .record [("command", .text "")]), ("new", .record [("command", .text "n")])])]

def sampleServers : Table ServerConfig :=
  (defaults.insert "terraform"
    ⟨"terraform", .text "terraform-ls", [.text "serve"], false⟩).insert "new"
    ⟨"new", .text "n", [], true⟩

/-- The server that is switched off keeps its command line, and the one without a command its
default. -/
theorem load_merges_sampleSettings :
    tomlReader.IsDistinct ∧ load tomlReader (some sampleSettings) = .ok sampleServers ∧
    Holds tomlReader (some sampleSettings) sampleDocument ∧
    Gives (defaults.get? "terraform") "terraform" (.record [("enabled", .boolean false)])
      (sampleServers.get? "terraform") ∧
    Gives (defaults.get? "tsx") "tsx" (.record [("command", .text "")])
      (sampleServers.get? "tsx") := by
  have hread : read tomlReader (some sampleSettings) = .ok sampleDocument := by decide +kernel
  have hload : load tomlReader (some sampleSettings) = .ok sampleServers :=
    load_eq_ok_iff.mpr ⟨sampleDocument, read_eq_ok_iff.mp hread, by decide +kernel⟩
  obtain ⟨-, -, hmerges⟩ :=
    load_merges_unless_misplaced tomlReader isDistinct_tomlReader (some sampleSettings)
  obtain ⟨document, hholds, -, -, hgives⟩ := hmerges sampleServers hload
  obtain rfl : sampleDocument = document :=
    Except.ok.inj (hread.symm.trans (read_eq_ok_iff.mpr hholds))
  exact ⟨isDistinct_tomlReader, hload, hholds, hgives "terraform" _ (by decide +kernel),
    hgives "tsx" _ (by decide +kernel)⟩

/-- A text in the place of the servers does not leave the defaults as they are. -/
theorem load_fails_on_text_for_servers :
    load tomlReader (some (Text.Utf8.encode "servers = \"text\"\n".toList)) = .error .noTable := by
  decide +kernel

end CodeAtlas.Settings
