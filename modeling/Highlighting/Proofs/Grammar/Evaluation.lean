import Highlighting.Proofs.Grammar.Extended

/-!
# Evaluating definitions

To compile a definition in a proof, its patterns have to be evaluated.  A text finds its characters
by a recursion over bytes that is not structural, and a rule reads its pattern three times, each
time with something else around it.  Here ASCII texts are read off their bytes, each pattern is
read once, and that of a vocabulary is not read at all.  What is compiled in this way is what the
definition with the rules of an extension in front compiles to
(`Definition.compile_of_compileQuickly?`).
-/

namespace Highlighting

/-- The characters of bytes that are all ASCII. -/
def asciiChars? : List UInt8 → Option (List Char)
  | [] => some []
  | b :: bs => if b.toNat < 128 then (asciiChars? bs).map (Char.ofNat b.toNat :: ·) else none

/-- The characters of a text, which are read off its bytes if they are all ASCII. -/
def quickChars (s : String) : List Char := (asciiChars? s.toByteArray.data.toList).getD s.toList

/-- A character that takes several bytes begins with a byte that is not ASCII. -/
theorem exists_utf8EncodeChar {c : Char} (h : 127 < c.val.toNat) :
    ∃ b bs, String.utf8EncodeChar c = b :: bs ∧ 128 ≤ b.toNat := by
  have hlt : c.val.toNat < 0x110000 := by
    have := c.valid
    simp only [UInt32.isValidChar, Nat.isValidChar] at this
    omega
  rw [String.utf8EncodeChar]
  split
  · omega
  split
  · refine ⟨_, _, rfl, ?_⟩
    rw [UInt8.toNat_ofNat']
    omega
  split
  · refine ⟨_, _, rfl, ?_⟩
    rw [UInt8.toNat_ofNat']
    omega
  · refine ⟨_, _, rfl, ?_⟩
    rw [UInt8.toNat_ofNat']
    omega

theorem asciiChars?_encoded {cs ds : List Char}
    (h : asciiChars? (cs.flatMap String.utf8EncodeChar) = some ds) : ds = cs := by
  induction cs generalizing ds with
  | nil => exact (Option.some.inj h).symm
  | cons c cs ih =>
    rw [List.flatMap_cons] at h
    by_cases hc : c.val.toNat ≤ 127
    · rw [String.utf8EncodeChar, if_pos hc, List.singleton_append, asciiChars?, UInt8.toNat_ofNat',
        Nat.mod_eq_of_lt (by omega), if_pos (by omega)] at h
      obtain ⟨rest, hrest, rfl⟩ := Option.map_eq_some_iff.1 h
      rw [ih hrest]
      exact congrArg (· :: cs) (Char.ofNat_toNat c)
    · obtain ⟨b, bs, hb, hle⟩ := exists_utf8EncodeChar (Nat.lt_of_not_le hc)
      rw [hb, List.cons_append, asciiChars?, if_neg (by omega)] at h
      cases h

theorem quickChars_eq (s : String) : quickChars s = s.toList := by
  obtain ⟨cs, rfl⟩ : ∃ cs, s = String.ofList cs := ⟨s.toList, String.ofList_toList.symm⟩
  have hbytes : cs.utf8Encode.data.toList = cs.flatMap String.utf8EncodeChar :=
    List.toList_data_toByteArray
  rw [quickChars, String.toByteArray_ofList, hbytes, String.toList_ofList]
  cases h : asciiChars? (cs.flatMap String.utf8EncodeChar) with
  | none => rfl
  | some ds => exact asciiChars?_encoded h

namespace Pattern

variable {text : List Char} {s : Partial}

/-- Reads a pattern to its end. -/
def readWhole? (text : List Char) : Option Partial := do
  let ls ← (lexemes text).toOption
  let s ← (ls.foldlM step .start).toOption
  if s.outer.isEmpty then some s else none

theorem readsWhole_of_readWhole? (h : readWhole? text = some s) : ReadsWhole text s := by
  obtain ⟨ls, hls, h⟩ := Option.bind_eq_some_iff.1 h
  obtain ⟨s', hs, h⟩ := Option.bind_eq_some_iff.1 h
  split at h
  · next houter =>
    obtain rfl := Option.some.inj h
    exact ⟨ls, lexes_of_lexemes (Except.eq_ok_of_toOption hls), Except.eq_ok_of_toOption hs,
      List.isEmpty_iff.1 houter⟩
  · cases h

/-- The matcher of a pattern that is nested two levels deeper than what is in it. -/
def matcher? (groups depth : Nat) (p : Pattern) : Option Matcher :=
  if depth + 2 ≤ maxDepth && p.fits then some (.ofRead ⟨p, groups⟩) else none

theorem matcherParse_of_matcher? {groups depth n : Nat} {p : Pattern} {m : Matcher}
    (h : matcher? groups n p = some m) (hdepth : depth ≤ n)
    (htext : parse text = limited ⟨p, depth + 2⟩ groups) : Matcher.parse text = .ok m := by
  unfold matcher? at h
  split at h
  · next hlimits =>
    obtain rfl := Option.some.inj h
    obtain ⟨hn, hfits⟩ := Bool.and_eq_true_iff.1 hlimits
    have hn := of_decide_eq_true hn
    have hdeep : ¬ depth + 2 > maxDepth := by omega
    rw [Matcher.parse, htext, limited, if_neg hdeep, if_pos hfits]
    rfl
  · cases h

end Pattern

/-- A list whose elements are mapped with success is mapped alike by what agrees on success. -/
theorem mapM_eq_ok_of_some {ε α β : Type} {f : α → Option β} {g : α → Except ε β} {l : List α}
    {bs : List β} (hfg : ∀ a b, f a = some b → g a = .ok b) (h : l.mapM f = some bs) :
    l.mapM g = .ok bs := by
  induction l generalizing bs with
  | nil => exact congrArg Except.ok (Option.some.inj h)
  | cons a l ih =>
    rw [List.mapM_cons] at h ⊢
    obtain ⟨b, hb, h⟩ := Option.bind_eq_some_iff.1 h
    obtain ⟨rest, hrest, h⟩ := Option.bind_eq_some_iff.1 h
    obtain rfl := Option.some.inj h
    rw [hfg a b hb, ih hrest]
    rfl

namespace Definition

open Pattern

variable (d : Definition)

/-- Compiles a rule of a state whose pattern is read, and nested no deeper than a number. -/
def compileRead? (state : String) (r : Rule) (read : Read) (depth : Nat) :
    Option CompiledRule := do
  let matcher? := matcher? read.groups depth
  let whole ← matcher? (sequence [.look .textStart, read.pattern, .look .textEnd])
  if whole.isMatch [] then none
  else
    let transition ← (d.resolveTransition state r.transition).toOption
    let action ← (d.resolveAction state r.action).toOption
    let start ← matcher? (sequence [.look .textStart, read.pattern])
    let context ← matcher? (sequence [.look .textStart, .one .all, read.pattern])
    some ⟨r.pattern, start, context, action, transition⟩

/-- Compiles an entry of a state. -/
def compileEntryQuickly? (state : String) : Entry → Option Slot
  | .rule r => do
    let s ← readWhole? (quickChars r.pattern)
    (d.compileRead? state r s.read s.frame.pattern.depth).map .rule
  | .splice target => (d.resolve state target).toOption.map .splice

/-- Compiles the entry of a vocabulary. -/
def compileVocabulary? (state : String) (v : Vocabulary) : Option Slot :=
  let words := v.words.map quickChars
  if words.isEmpty || words.any List.isEmpty then none
  else (d.compileRead? state (.token v.pattern v.category) ⟨wholeWord words, 0⟩ 5).map .rule

/-- Compiles a definition with the rules of an extension in front. -/
def compileQuickly? (rules : List ExtensionRule) : Option Grammar :=
  if d.hasState rootState then do
    let slots ← d.states.mapM fun s => do
      let front ← (Extension.listedIn rules s.1).mapM (d.compileVocabulary? s.1)
      let back ← s.2.mapM (d.compileEntryQuickly? s.1)
      some (front ++ back)
    let rules ← (d.flatten slots).toOption
    some ⟨d.name, d.stateNames.zipWith CompiledState.mk rules⟩
  else none

variable {d}

theorem readPattern_of_parse {state pattern : String} {text : List Char} {m : Matcher}
    (h : Matcher.parse text = .ok m) : readPattern state pattern text = .ok m := by
  rw [readPattern, h]

theorem compileRule_of_compileRead? {state : String} {r : Rule} {s : Partial} {depth : Nat}
    {c : CompiledRule} (hread : ReadsWhole r.pattern.toList s)
    (hdepth : s.frame.pattern.depth ≤ depth) (h : d.compileRead? state r s.read depth = some c) :
    d.compileRule state r = .ok c := by
  obtain ⟨whole, hwhole, h⟩ := Option.bind_eq_some_iff.1 h
  have hwhole := matcherParse_of_matcher? hwhole hdepth (parse_wholeText_eq hread)
  rw [compileRule, readPattern_of_parse hwhole]
  split at h
  · cases h
  · next hempty =>
    obtain ⟨transition, htransition, h⟩ := Option.bind_eq_some_iff.1 h
    obtain ⟨action, haction, h⟩ := Option.bind_eq_some_iff.1 h
    obtain ⟨start, hstart, h⟩ := Option.bind_eq_some_iff.1 h
    obtain ⟨context, hcontext, h⟩ := Option.bind_eq_some_iff.1 h
    have hstart := matcherParse_of_matcher? hstart hdepth (parse_startText_eq hread)
    have hcontext := matcherParse_of_matcher? hcontext hdepth (parse_contextText_eq hread)
    dsimp only [bind, Except.bind]
    rw [if_neg hempty, Except.eq_ok_of_toOption htransition, Except.eq_ok_of_toOption haction,
      readPattern_of_parse hstart, readPattern_of_parse hcontext]
    exact congrArg Except.ok (Option.some.inj h)

theorem compileEntry_of_compileEntryQuickly? {state : String} (e : Entry) (slot : Slot)
    (h : d.compileEntryQuickly? state e = some slot) : d.compileEntry state e = .ok slot := by
  cases e with
  | rule r =>
    obtain ⟨s, hs, h⟩ := Option.bind_eq_some_iff.1 h
    rw [quickChars_eq] at hs
    obtain ⟨c, hc, rfl⟩ := Option.map_eq_some_iff.1 h
    have hread := readsWhole_of_readWhole? hs
    rw [compileEntry, compileRule_of_compileRead? hread (Nat.le_refl _) hc]
    rfl
  | splice target =>
    obtain ⟨i, hi, rfl⟩ := Option.map_eq_some_iff.1 h
    rw [compileEntry, Except.eq_ok_of_toOption hi]
    rfl

theorem compileEntry_of_compileVocabulary? {state : String} (v : Vocabulary) (slot : Slot)
    (h : d.compileVocabulary? state v = some slot) :
    d.compileEntry state (Extension.entryOf v) = .ok slot := by
  have hchars : v.words.map quickChars = v.words.map String.toList :=
    List.map_congr_left fun w _ => quickChars_eq w
  unfold compileVocabulary? at h
  dsimp only at h
  rw [hchars] at h
  split at h
  · cases h
  · next hwords =>
    obtain ⟨c, hc, rfl⟩ := Option.map_eq_some_iff.1 h
    have hwords : v.words ≠ [] ∧ "" ∉ v.words := by
      simpa using hwords
    obtain ⟨s, hs, hread, hdepth⟩ := readsWhole_vocabulary hwords.1
      fun w hw hempty => hwords.2 (hempty ▸ hw)
    rw [← hread] at hc
    rw [Extension.entryOf, compileEntry, compileRule_of_compileRead? hs hdepth hc]
    rfl

theorem flatten_congr {d' : Definition} (h : d'.stateNames = d.stateNames) :
    d'.flatten = d.flatten := by
  have hname : d'.stateName = d.stateName := by
    funext i
    rw [stateName, stateName, h]
  funext slots
  rw [flatten, flatten, hname]

/-- What is compiled quickly is what the definition with the rules in front compiles to. -/
theorem compile_of_compileQuickly? {rules : List ExtensionRule} {g : Grammar}
    (h : d.compileQuickly? rules = some g) : (Extension.layered rules d).compile = .ok g := by
  have hnames := Extension.stateNames_layered rules d
  unfold compileQuickly? at h
  split at h
  · next hroot =>
    obtain ⟨slots, hslots, h⟩ := Option.bind_eq_some_iff.1 h
    obtain ⟨flat, hflat, h⟩ := Option.bind_eq_some_iff.1 h
    have hentries : (Extension.layered rules d).compileEntries = .ok slots := by
      rw [compileEntries, Extension.layered, List.mapM_map]
      refine mapM_eq_ok_of_some (fun s slots hslots => ?_) hslots
      obtain ⟨front, hfront, hslots⟩ := Option.bind_eq_some_iff.1 hslots
      obtain ⟨back, hback, hslots⟩ := Option.bind_eq_some_iff.1 hslots
      have hfront := mapM_eq_ok_of_some compileEntry_of_compileVocabulary? hfront
      have hback := mapM_eq_ok_of_some compileEntry_of_compileEntryQuickly? hback
      obtain rfl := Option.some.inj hslots
      change ((Extension.listedIn rules s.1).map Extension.entryOf ++ s.2).mapM
        ((Extension.layered rules d).compileEntry s.1) = _
      rw [compileEntry_congr hnames, List.mapM_append, List.mapM_map]
      change (List.mapM (fun v => d.compileEntry s.1 (Extension.entryOf v)) _ >>= _) = _
      rw [hfront, hback]
      rfl
    have hstate : (Extension.layered rules d).hasState rootState = true := by
      rw [hasState, hnames]
      exact hroot
    rw [compile, if_pos hstate, hentries, hnames, flatten_congr hnames]
    dsimp only [bind, Except.bind]
    rw [Except.eq_ok_of_toOption hflat]
    exact congrArg Except.ok (Option.some.inj h)
  · cases h

end Definition

namespace Extension

variable {rules : List ExtensionRule} {d : Definition} {g : Grammar}

theorem ofDefinition_value_of_compile (info : LexerInfo) (h : d.compileQuickly? rules = some g) :
    (Lexer.ofDefinition info (layered rules d)).value = .ok ⟨info, layered rules d, g⟩ := by
  rw [Lexer.ofDefinition, Logged.value_bind, Definition.build,
    Definition.compile_of_compileQuickly? h]
  rfl

theorem layered_nil (d : Definition) : layered [] d = d :=
  congrArg (Definition.mk d.name) (List.map_id' d.states)

/-- An extended lexer has the grammar of the definition with the rules of the extension. -/
theorem extend_value_of_compile {x : Extension} {base : Lexer}
    (hbase : base.info.answersTo x.base = true) (hfit : Fit x.rules base.definition)
    (h : (base.definition.rename x.tag).compileQuickly? x.rules = some g) :
    (x.extend base).value =
      .ok ⟨x.infoFor base.info, layered x.rules (base.definition.rename x.tag), g⟩ := by
  have happly : (x.applyTo (base.definition.rename (x.infoFor base.info).tag)).value =
      (layered x.rules (base.definition.rename x.tag), .ok ()) :=
    applyTo_eq_ok_iff.2 ⟨⟨hfit.accepted, hfit.declared⟩, rfl⟩
  rw [extend, if_pos hbase, Logged.value_bind, happly]
  dsimp only
  rw [Logged.value_bind, ofDefinition_value_of_compile _ h]
  rfl

end Extension

end Highlighting
