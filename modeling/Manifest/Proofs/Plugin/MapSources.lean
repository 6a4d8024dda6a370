import Manifest.Proofs.Plugin.GeneratedMap
import Manifest.Proofs.Text.Quotes
import Manifest.Proofs.Text.Split

namespace Manifest

namespace MapRecipe

variable {w : Workspace} {r : MapRecipe} {line : List Char} {literal file : String}
  {p : String × String} {ps : List (String × String)}

structure Assigns (text key value : List Char) : Prop where
  first : '=' ∉ key
  text_eq : text = key ++ '=' :: value

theorem assigns_iff {text key value : List Char} :
    Assigns text key value ↔ Text.splitFirst? '=' text = some (key, value) := by
  rw [Text.splitFirst?_eq_some_iff]
  exact ⟨fun h => ⟨h.first, h.text_eq⟩, fun h => ⟨h.1, h.2⟩⟩

theorem exists_assigns_iff {text : List Char} :
    (∃ key value, Assigns text key value) ↔ '=' ∈ text := by
  constructor
  · rintro ⟨key, value, -, rfl⟩
    exact List.mem_append_right _ List.mem_cons_self
  · intro h
    obtain ⟨key, value, rfl, hkey⟩ := List.eq_append_cons_of_mem h
    exact ⟨key, value, hkey, rfl⟩

inductive LineReads (line : List Char) : String × String → Prop
  | pair {key value} : Assigns line key value →
      LineReads line (String.ofList (Text.trim key), String.ofList value)

inductive LiteralReads (literal : String) : String × String → Prop
  | pair {key value text} : Assigns literal.toList key value → Text.Unquoted value text →
      LiteralReads literal (String.ofList key, String.ofList text)

/-- The key and the path of a file: those around the first `=`, or else its name and the whole
text. -/
inductive FileNames (file : List Char) : List Char → List Char → Prop
  | keyed {key path} : Assigns file key path → FileNames file key path
  | named {name} : '=' ∉ file → FilePath.fileName? file = some name → FileNames file name file

inductive FileReads (w : Workspace) (file : String) : String × String → Prop
  | pair {key path text} : FileNames file.toList key path →
      w.load (String.ofList path) = .ok text → FileReads w file (String.ofList key, text)

inductive EnvReads (w : Workspace) (file : String) : List (String × String) → Prop
  | lines {contents ps} : w.load file = .ok contents →
      List.Forall₂ LineReads (variableLines contents) ps → EnvReads w file ps

theorem linePair_eq_ok : r.linePair file line = .ok p ↔ LineReads line p := by
  rw [linePair]
  constructor
  · intro h
    split at h
    · rename_i hcut
      obtain rfl := Except.ok.inj h
      exact .pair (assigns_iff.2 hcut)
    · cases h
  · rintro ⟨hassigns⟩
    rw [assigns_iff.1 hassigns]

theorem literalPair_eq_ok : r.literalPair literal = .ok p ↔ LiteralReads literal p := by
  rw [literalPair]
  constructor
  · intro h
    split at h
    · rename_i hcut
      obtain rfl := Except.ok.inj h
      exact .pair (assigns_iff.2 hcut) (Text.unquoted_iff.2 rfl)
    · cases h
  · rintro ⟨hassigns, htext⟩
    obtain rfl := Text.unquoted_iff.1 htext
    rw [assigns_iff.1 hassigns]

theorem filePair_eq_ok : r.filePair w file = .ok p ↔ FileReads w file p := by
  rw [filePair]
  constructor
  · intro h
    split at h
    · rename_i hcut
      obtain ⟨_, hpure, h⟩ := bind_eq_ok.1 h
      obtain rfl := pure_eq_ok.1 hpure
      obtain ⟨text, htext, h⟩ := bind_eq_ok.1 h
      obtain rfl := pure_eq_ok.1 h
      exact .pair (.keyed (assigns_iff.2 hcut)) htext
    · rename_i hcut
      split at h
      · rename_i hname
        obtain ⟨_, hpure, h⟩ := bind_eq_ok.1 h
        obtain rfl := pure_eq_ok.1 hpure
        obtain ⟨text, htext, h⟩ := bind_eq_ok.1 h
        obtain rfl := pure_eq_ok.1 h
        exact .pair (.named (Text.splitFirst?_eq_none_iff.1 hcut) hname) htext
      · cases h
  · rintro ⟨hassigns | ⟨hplain, hname⟩, htext⟩
    · rw [assigns_iff.1 hassigns]
      exact bind_eq_ok.2 ⟨_, rfl, bind_eq_ok.2 ⟨_, htext, rfl⟩⟩
    · rw [Text.splitFirst?_of_not_mem hplain, hname]
      exact bind_eq_ok.2 ⟨_, rfl, bind_eq_ok.2 ⟨_, htext, rfl⟩⟩

theorem envPairs_eq_ok : r.envPairs w file = .ok ps ↔ EnvReads w file ps := by
  rw [envPairs, bind_eq_ok]
  simp only [mapM_eq_ok_iff_forall₂ fun _ _ => linePair_eq_ok]
  exact ⟨fun ⟨_, hload, hlines⟩ => .lines hload hlines,
    fun ⟨hload, hlines⟩ => ⟨_, hload, hlines⟩⟩

inductive Reads (w : Workspace) (r : MapRecipe) : List (String × String) → Prop
  | sources {envs literals files} : List.Forall₂ (EnvReads w) r.envs envs →
      List.Forall₂ LiteralReads r.literals literals →
      List.Forall₂ (FileReads w) r.files files →
      Reads w r (envs.flatten ++ literals ++ r.data.map (fun e => (e.1, dataText e.2)) ++ files)

theorem pairs_eq_ok : r.pairs w = .ok ps ↔ Reads w r ps := by
  simp only [pairs, bind_eq_ok, pure_eq_ok, mapM_eq_ok_iff_forall₂ fun _ _ => envPairs_eq_ok,
    mapM_eq_ok_iff_forall₂ fun _ _ => literalPair_eq_ok,
    mapM_eq_ok_iff_forall₂ fun _ _ => filePair_eq_ok]
  constructor
  · rintro ⟨envs, henvs, literals, hliterals, files, hfiles, rfl⟩
    exact .sources henvs hliterals hfiles
  · rintro ⟨henvs, hliterals, hfiles⟩
    exact ⟨_, henvs, _, hliterals, _, hfiles, rfl⟩

structure Readable (w : Workspace) (r : MapRecipe) : Prop where
  envs : ∀ file ∈ r.envs, ∃ contents, w.load file = .ok contents ∧
    ∀ line ∈ variableLines contents, '=' ∈ line
  literals : ∀ literal ∈ r.literals, '=' ∈ literal.toList
  files : ∀ file ∈ r.files, ∃ key path text, FileNames file.toList key path ∧
    w.load (String.ofList path) = .ok text

theorem exists_lineReads_iff : (∃ p, LineReads line p) ↔ '=' ∈ line := by
  rw [← exists_assigns_iff]
  exact ⟨fun ⟨_, ⟨hassigns⟩⟩ => ⟨_, _, hassigns⟩, fun ⟨_, _, hassigns⟩ => ⟨_, .pair hassigns⟩⟩

theorem exists_literalReads_iff : (∃ p, LiteralReads literal p) ↔ '=' ∈ literal.toList := by
  rw [← exists_assigns_iff]
  exact ⟨fun ⟨_, ⟨hassigns, _⟩⟩ => ⟨_, _, hassigns⟩,
    fun ⟨_, _, hassigns⟩ => ⟨_, .pair hassigns (Text.unquoted_iff.2 rfl)⟩⟩

theorem exists_envReads_iff : (∃ ps, EnvReads w file ps) ↔
    ∃ contents, w.load file = .ok contents ∧ ∀ line ∈ variableLines contents, '=' ∈ line := by
  simp only [← exists_lineReads_iff, ← exists_forall₂_iff]
  exact ⟨fun ⟨ps, ⟨hload, hlines⟩⟩ => ⟨_, hload, ps, hlines⟩,
    fun ⟨_, hload, ps, hlines⟩ => ⟨ps, .lines hload hlines⟩⟩

theorem exists_fileReads_iff : (∃ p, FileReads w file p) ↔
    ∃ key path text, FileNames file.toList key path ∧ w.load (String.ofList path) = .ok text :=
  ⟨fun ⟨_, ⟨hnames, htext⟩⟩ => ⟨_, _, _, hnames, htext⟩,
    fun ⟨_, _, _, hnames, htext⟩ => ⟨_, .pair hnames htext⟩⟩

theorem exists_reads_iff : (∃ ps, Reads w r ps) ↔ Readable w r := by
  have hparts : Readable w r ↔ (∃ envs, List.Forall₂ (EnvReads w) r.envs envs) ∧
      (∃ literals, List.Forall₂ LiteralReads r.literals literals) ∧
      ∃ files, List.Forall₂ (FileReads w) r.files files := by
    simp only [exists_forall₂_iff, exists_envReads_iff, exists_literalReads_iff,
      exists_fileReads_iff]
    exact ⟨fun h => ⟨h.envs, h.literals, h.files⟩, fun h => ⟨h.1, h.2.1, h.2.2⟩⟩
  rw [hparts]
  constructor
  · rintro ⟨_, ⟨henvs, hliterals, hfiles⟩⟩
    exact ⟨⟨_, henvs⟩, ⟨_, hliterals⟩, _, hfiles⟩
  · rintro ⟨⟨_, henvs⟩, ⟨_, hliterals⟩, _, hfiles⟩
    exact ⟨_, .sources henvs hliterals hfiles⟩

def ofKind (k : MapKind) (r : MapRecipe) : MapRecipe := { r with kind := k }

theorem reads_ofKind {k : MapKind} : Reads w (r.ofKind k) ps ↔ Reads w r ps :=
  ⟨fun ⟨henvs, hliterals, hfiles⟩ => .sources henvs hliterals hfiles,
    fun ⟨henvs, hliterals, hfiles⟩ => .sources (r := r.ofKind k) henvs hliterals hfiles⟩

theorem ofFields?_ofKind (kind k : MapKind) (es : Entries Tree) :
    ofFields? k es = (ofFields? kind es).map (ofKind k) := by
  simp only [ofFields?, Option.bind_eq_bind, Option.map_bind, Function.comp_def, Option.map_some]
  rfl

theorem configure_ofKind {kind : MapKind} {config : Tree} (h : configure kind config = .ok r)
    (k : MapKind) : configure k config = .ok (r.ofKind k) := by
  obtain ⟨hrecord, hname, hvalid⟩ := configure_eq_ok.1 h
  refine configure_eq_ok.2 ⟨?_, hname, hvalid⟩
  obtain ⟨es, hes, hfields⟩ := Option.bind_eq_some_iff.1 hrecord
  exact Option.bind_eq_some_iff.2 ⟨es, hes, by rw [ofFields?_ofKind kind, hfields, Option.map_some]⟩

end MapRecipe

end Manifest
