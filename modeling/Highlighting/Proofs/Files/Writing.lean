import Highlighting.Files.Tree

/-!
# Writing files

A path leads to the same place in a tree that has the folders of another one
(`FileTree.KeepsFolders`).  Writing a file keeps the folders of the tree, and so a file is found
where it was written (`FileTree.hasFile_of_write`).  A path into a folder leads to a place that ends
with the name in the folder (`FileTree.getLast?_of_resolve?_join`); so a file stays as it is when one
with another name is written into its folder (`FileTree.HasFile.write_of_ne`).
-/

namespace Highlighting

namespace Path

variable {path name : String}

/-! ### Pieces of paths -/

theorem piecesOf_ne_nil (cs : List Char) : piecesOf cs ≠ [] := by
  cases cs with
  | nil => simp [piecesOf]
  | cons c cs =>
    rw [piecesOf]
    split
    · simp
    · split <;> simp

theorem piecesOf_of_notMem {cs : List Char} (h : '/' ∉ cs) : piecesOf cs = [cs] := by
  induction cs with
  | nil => rfl
  | cons c cs ih =>
    rw [List.mem_cons, not_or] at h
    rw [piecesOf, if_neg (Ne.symm h.1), ih h.2]

theorem notMem_of_mem_piecesOf {cs p : List Char} (h : p ∈ piecesOf cs) : '/' ∉ p := by
  induction cs generalizing p with
  | nil =>
    obtain rfl := List.mem_singleton.1 h
    exact List.not_mem_nil
  | cons c cs ih =>
    rw [piecesOf] at h
    split at h
    · rcases List.mem_cons.1 h with rfl | h
      · exact List.not_mem_nil
      · exact ih h
    · next hc =>
      split at h
      · obtain rfl := List.mem_singleton.1 h
        simpa using Ne.symm hc
      · next q qs heq =>
        rw [heq] at ih
        rcases List.mem_cons.1 h with rfl | h
        · rw [List.mem_cons, not_or]
          exact ⟨Ne.symm hc, ih List.mem_cons_self⟩
        · exact ih (List.mem_cons_of_mem _ h)

theorem piecesOf_append_slash (cs ds : List Char) :
    piecesOf (cs ++ '/' :: ds) = piecesOf cs ++ piecesOf ds := by
  induction cs with
  | nil => simp [piecesOf]
  | cons c cs ih =>
    rw [List.cons_append, piecesOf, piecesOf, ih]
    split
    · rfl
    · cases hcs : piecesOf cs with
      | nil => exact absurd hcs (piecesOf_ne_nil cs)
      | cons p ps => rfl

/-- A text that names a file in a folder: it is one piece, and leads to something of its own. -/
structure IsPlain (name : String) : Prop where
  notMem : '/' ∉ name.toList
  notIdle : isIdle name = false
  ne_up : name ≠ ".."

/-- A file name is plain. -/
theorem isPlain_of_fileName? (h : fileName? path = some name) : IsPlain name := by
  rw [fileName?] at h
  cases hback : backward path with
  | nil => simp [hback] at h
  | cons p ps =>
    rw [hback] at h
    dsimp only at h
    split at h
    · cases h
    · next hup =>
      obtain rfl := Option.some.inj h
      refine ⟨?_, ?_, hup⟩
      · have hmem : p ∈ (pieces path).reverse :=
          (List.dropWhile_sublist isIdle).subset (by rw [← backward, hback]; exact List.mem_cons_self)
        obtain ⟨q, hq, rfl⟩ := List.mem_map.1 (List.mem_reverse.1 hmem)
        rw [String.toList_ofList]
        exact notMem_of_mem_piecesOf hq
      · have hhead := List.head?_dropWhile_not isIdle (pieces path).reverse
        rw [← backward, hback] at hhead
        simpa using hhead

/-- What follows a plain name may not make it lead elsewhere. -/
theorem IsPlain.append (h : IsPlain name) {suffix : String} (hmem : '/' ∉ suffix.toList)
    (hlength : 2 < (name ++ suffix).length) : IsPlain (name ++ suffix) := by
  refine ⟨?_, ?_, fun heq => ?_⟩
  · rw [String.toList_append, List.mem_append, not_or]
    exact ⟨h.notMem, hmem⟩
  · rw [isIdle, Bool.or_eq_false_iff, beq_eq_false_iff_ne, beq_eq_false_iff_ne]
    refine ⟨fun heq => ?_, fun heq => ?_⟩
    · rw [heq] at hlength
      exact absurd hlength (by decide)
    · rw [heq] at hlength
      exact absurd hlength (by decide)
  · rw [heq] at hlength
    exact absurd hlength (by decide)

/-- The last piece of a path into a folder. -/
theorem exists_pieces_join (folder : String) (h : IsPlain name) :
    ∃ before, pieces (join folder name) = before ++ [name] := by
  have hname : (piecesOf name.toList).map String.ofList = [name] := by
    rw [piecesOf_of_notMem h.notMem, List.map_singleton, String.ofList_toList]
  have hslash (cs : List Char) : (piecesOf (cs ++ '/' :: name.toList)).map String.ofList =
      (piecesOf cs).map String.ofList ++ [name] := by
    rw [piecesOf_append_slash, List.map_append, hname]
  rw [join]
  split
  · exact ⟨[], hname⟩
  · split
    · next hlast =>
      obtain ⟨cs, hcs⟩ := List.getLast?_eq_some_iff.1 hlast
      refine ⟨(piecesOf cs).map String.ofList, ?_⟩
      rw [pieces, String.toList_append, hcs, List.append_assoc, List.singleton_append, hslash]
    · refine ⟨(piecesOf folder.toList).map String.ofList, ?_⟩
      rw [pieces, String.toList_append, String.toList_append, List.append_assoc]
      exact hslash folder.toList

/-- Paths into a folder are different when the names in the folder are. -/
theorem join_inj {folder name' : String} : join folder name = join folder name' ↔ name = name' := by
  refine ⟨fun h => ?_, fun h => h ▸ rfl⟩
  rw [join, join] at h
  split at h
  · exact h
  · split at h
    · exact String.append_right_inj _ |>.1 h
    · exact String.append_right_inj _ |>.1 h

end Path

namespace FileTree

variable {t t' : FileTree} {p q : Place} {e : FileEntry} {path folder name : String}

/-! ### Entries -/

theorem find?_insertEntry (p q : Place) (e : FileEntry) (xs : List (Place × FileEntry)) :
    (insertEntry p e xs).find? (fun x => x.1 == q) =
      if p = q then some (p, e) else xs.find? fun x => x.1 == q := by
  induction xs with
  | nil => by_cases h : p = q <;> simp [insertEntry, h]
  | cons x xs ih =>
    rw [insertEntry]
    by_cases h : p = q
    · subst h
      split
      · simp
      · split
        · simp
        · next hne _ =>
          rw [List.find?_cons_of_neg (by simpa using Ne.symm hne), ih, if_pos rfl, if_pos rfl]
    · split
      · next heq => simp [← heq, h]
      · split
        · simp [h]
        · rw [if_neg h] at ih
          rw [List.find?_cons, List.find?_cons, ih]

theorem entry?_insert (hp : p ≠ []) (t : FileTree) (e : FileEntry) (q : Place) :
    FileTree.entry? (t.insert p e) q = if p = q then some e else t.entry? q := by
  rw [ entry?, entry?, insert, find?_insertEntry]
  by_cases hq : q = []
  · have hne : p ≠ q := fun h => hp (h.trans hq)
    simp [hq, hp]
  · by_cases h : p = q <;> simp [hq, h]

theorem isFolder_iff : t.isFolder p = true ↔ t.entry? p = some .folder := by
  rw [isFolder]
  split <;> simp_all

/-- All that stands somewhere in one tree stands there in another one, too. -/
structure Grows (t t' : FileTree) : Prop where
  home_eq : t'.home = t.home
  entry?_eq : ∀ p e, t.entry? p = some e → t'.entry? p = some e

theorem Grows.refl (t : FileTree) : t.Grows t := ⟨rfl, fun _ _ h => h⟩

theorem Grows.trans {t'' : FileTree} (h : t.Grows t') (h' : t'.Grows t'') : t.Grows t'' :=
  ⟨h'.home_eq.trans h.home_eq, fun p e he => h'.entry?_eq p e (h.entry?_eq p e he)⟩

theorem grows_insert (h : t.entry? p = none) (e : FileEntry) : t.Grows (t.insert p e) := by
  have hp : p ≠ [] := by
    rintro rfl
    simp [ entry?] at h
  refine ⟨rfl, fun q e' he' => ?_⟩
  rw [entry?_insert hp, if_neg, he']
  rintro rfl
  simp [h] at he'

/-- A tree has the folders of another one. -/
structure KeepsFolders (t t' : FileTree) : Prop where
  home_eq : t'.home = t.home
  isFolder : ∀ p, t.isFolder p = true → t'.isFolder p = true

theorem Grows.keepsFolders (h : t.Grows t') : t.KeepsFolders t' :=
  ⟨h.home_eq, fun p hp => isFolder_iff.2 (h.entry?_eq p _ (isFolder_iff.1 hp))⟩

theorem KeepsFolders.trans {t'' : FileTree} (h : t.KeepsFolders t') (h' : t'.KeepsFolders t'') :
    t.KeepsFolders t'' :=
  ⟨h'.home_eq.trans h.home_eq, fun p hp => h'.isFolder p (h.isFolder p hp)⟩

theorem ne_nil_of_isFolder (h : t.isFolder p = false) : p ≠ [] := by
  rintro rfl
  simp [FileTree.isFolder, entry?] at h

theorem keepsFolders_insert (h : t.isFolder p = false) (e : FileEntry) :
    t.KeepsFolders (t.insert p e) := by
  refine ⟨rfl, fun q hq => isFolder_iff.2 ?_⟩
  rw [entry?_insert (ne_nil_of_isFolder h), if_neg, isFolder_iff.1 hq]
  rintro rfl
  simp [h] at hq

/-! ### Where paths lead -/

theorem KeepsFolders.step?_eq (h : t.KeepsFolders t') {piece : String}
    (hq : t.step? p piece = some q) : t'.step? p piece = some q := by
  rw [step?] at hq ⊢
  by_cases hp : t.isFolder p = true
  · simpa [hp, h.isFolder p hp] using hq
  · simp [hp] at hq

theorem KeepsFolders.resolve?_eq (h : t.KeepsFolders t') (hp : t.resolve? path = some p) :
    t'.resolve? path = some p := by
  have hfold : ∀ (pieces : List String) (o : Place), pieces.foldlM t.step? o = some p →
      pieces.foldlM t'.step? o = some p := by
    intro pieces
    induction pieces with
    | nil => exact fun o ho => ho
    | cons piece pieces ih =>
      intro o ho
      obtain ⟨q, hq, ho⟩ := Option.bind_eq_some_iff.1 ho
      exact Option.bind_eq_some_iff.2 ⟨q, h.step?_eq hq, ih q ho⟩
  rw [resolve?] at hp ⊢
  split at hp
  · cases hp
  · next hne =>
    rw [if_neg hne, origin, h.home_eq]
    exact hfold _ _ hp

/-- Where a piece leads to: it stays in the folder, goes up, or goes to what it names. -/
theorem step?_eq_some {piece : String} (h : t.step? p piece = some q) : t.isFolder p = true ∧
    ((Path.isIdle piece = true ∧ q = p) ∨ (Path.isIdle piece = false ∧
      ((piece = ".." ∧ q = p.dropLast) ∨ (piece ≠ ".." ∧ q = p ++ [piece])))) := by
  rw [step?] at h
  split at h
  · cases h
  · next hp =>
    refine ⟨by simpa using hp, ?_⟩
    split at h
    · next hidle => exact .inl ⟨hidle, (Option.some.inj h).symm⟩
    · next hidle =>
      refine .inr ⟨Bool.eq_false_iff.2 hidle, ?_⟩
      split at h
      · next hup => exact .inl ⟨hup, (Option.some.inj h).symm⟩
      · next hup => exact .inr ⟨hup, (Option.some.inj h).symm⟩

/-- A path leads to a place by its last piece. -/
theorem exists_step?_of_resolve? {before : List String} {last : String}
    (hpieces : Path.pieces path = before ++ [last]) (h : t.resolve? path = some p) :
    ∃ folder, t.step? folder last = some p := by
  rw [resolve?] at h
  split at h
  · cases h
  · rw [hpieces, List.foldlM_append] at h
    obtain ⟨folder, -, hlast⟩ := Option.bind_eq_some_iff.1 h
    exact ⟨folder, by simpa using hlast⟩

/-- A path into a folder leads to a place that ends with the name in the folder. -/
theorem getLast?_of_resolve?_join (hname : Path.IsPlain name)
    (h : t.resolve? (Path.join folder name) = some p) : p.getLast? = some name := by
  obtain ⟨before, hbefore⟩ := Path.exists_pieces_join folder hname
  obtain ⟨q, hstep⟩ := exists_step?_of_resolve? hbefore h
  obtain ⟨-, ⟨hidle, -⟩ | ⟨-, ⟨hup, -⟩ | ⟨-, rfl⟩⟩⟩ := step?_eq_some hstep
  · rw [hname.notIdle] at hidle
    cases hidle
  · exact absurd hup hname.ne_up
  · exact List.getLast?_concat

/-- A file stands at a place that ends with the file name of its path. -/
theorem getLast?_of_find?_file {contents : ByteArray}
    (hfile : t.find? path = some (p, .file contents)) (hname : Path.fileName? path = some name) :
    p.getLast? = some name := by
  obtain ⟨q, hq, hentry⟩ := Option.bind_eq_some_iff.1 hfile
  obtain ⟨e, he, hpair⟩ := Option.bind_eq_some_iff.1 hentry
  obtain ⟨rfl, rfl⟩ := Prod.mk.inj (Option.some.inj hpair)
  obtain ⟨before, last, hpieces⟩ : ∃ before last, Path.pieces path = before ++ [last] := by
    have hne : Path.pieces path ≠ [] := by simp [Path.pieces, Path.piecesOf_ne_nil]
    exact ⟨_, _, (List.dropLast_concat_getLast hne).symm⟩
  obtain ⟨folder, hstep⟩ := exists_step?_of_resolve? hpieces hq
  rw [Path.fileName?, Path.backward, hpieces, List.reverse_append, List.reverse_singleton,
    List.singleton_append] at hname
  obtain ⟨hfolder, ⟨-, rfl⟩ | ⟨hidle, hlast⟩⟩ := step?_eq_some hstep
  · -- the path would lead to a folder
    rw [isFolder_iff, he] at hfolder
    cases hfolder
  · rw [List.dropWhile_cons_of_neg (by simp [hidle])] at hname
    dsimp only at hname
    obtain ⟨rfl, -⟩ | ⟨hup, rfl⟩ := hlast
    · cases hname
    · rw [if_neg hup] at hname
      obtain rfl := Option.some.inj hname
      exact List.getLast?_concat

/-! ### Writing -/

/-- Making folders takes nothing away. -/
theorem grows_makeFolders (t : FileTree) (p : Place) (pieces : List String) :
    t.Grows (t.makeFolders p pieces).1 := by
  fun_induction makeFolders t p pieces with
  | case1 t p => exact .refl t
  | case2 => exact .refl _
  | case3 _ _ _ _ _ _ _ ih => exact ih
  | case4 => exact .refl _
  | case5 _ _ _ _ _ _ hnone ih => exact (grows_insert hnone _).trans ih

/-- Writing a file fails, which takes nothing away, or it puts the file where its path leads to in
a tree with the folders on the way. -/
theorem write_cases (t : FileTree) (path : String) (contents : ByteArray) :
    ∃ t₁, t.Grows t₁ ∧
      ((∃ cause, t.write path contents = (t₁, .error cause)) ∨
        ∃ p, t₁.resolve? path = some p ∧ t₁.isFolder p = false ∧
          t.write path contents = (t₁.insert p (.file contents), .ok ())) := by
  have hgrows := t.grows_makeFolders (t.origin path) (Path.folderPieces path)
  rw [write]
  generalize t.makeFolders (t.origin path) (Path.folderPieces path) = made at hgrows
  obtain ⟨t₁, folder⟩ := made
  refine ⟨t₁, hgrows, ?_⟩
  cases folder with
  | error cause => exact .inl ⟨cause, rfl⟩
  | ok _ =>
    cases hp : t₁.resolve? path with
    | none => exact .inl ⟨.notFolder, by simp [hp]⟩
    | some p =>
      cases hfolder : t₁.isFolder p with
      | true => exact .inl ⟨.isFolder, by simp [hp, hfolder]⟩
      | false => exact .inr ⟨p, rfl, hfolder, by simp [hp, hfolder]⟩

/-- A path leads to a file with these contents. -/
def HasFile (t : FileTree) (path : String) (contents : ByteArray) : Prop :=
  ∃ p, t.find? path = some (p, .file contents)

theorem hasFile_iff {contents : ByteArray} : t.HasFile path contents ↔
    ∃ p, t.resolve? path = some p ∧ t.entry? p = some (.file contents) := by
  simp [HasFile, find?, Option.bind_eq_some_iff]

theorem HasFile.unique {contents contents' : ByteArray} (h : t.HasFile path contents)
    (h' : t.HasFile path contents') : contents = contents' := by
  obtain ⟨p, hp⟩ := h
  obtain ⟨p', hp'⟩ := h'
  have heq : some (p, FileEntry.file contents) = some (p', .file contents') := hp.symm.trans hp'
  simp only [Option.some.injEq, Prod.mk.injEq, FileEntry.file.injEq] at heq
  exact heq.2

/-- A file that was written is found. -/
theorem hasFile_of_write {contents : ByteArray} (h : (t.write path contents).2 = .ok ()) :
    (t.write path contents).1.HasFile path contents := by
  obtain ⟨t₁, -, ⟨cause, hwrite⟩ | ⟨p, hp, hfolder, hwrite⟩⟩ := t.write_cases path contents
  · simp [hwrite] at h
  · rw [hwrite, hasFile_iff]
    refine ⟨p, (keepsFolders_insert hfolder _).resolve?_eq hp, ?_⟩
    rw [entry?_insert (ne_nil_of_isFolder hfolder), if_pos rfl]

theorem HasFile.of_grows {contents : ByteArray} (h : t.HasFile path contents) (ht : t.Grows t') :
    t'.HasFile path contents := by
  obtain ⟨p, hp, he⟩ := hasFile_iff.1 h
  exact hasFile_iff.2 ⟨p, ht.keepsFolders.resolve?_eq hp, ht.entry?_eq p _ he⟩

/-- A file stays as it is when writing another one fails. -/
theorem HasFile.write_of_error {contents contents' : ByteArray} {path' : String}
    {cause : WriteFailure} (h : t.HasFile path contents)
    (herror : (t.write path' contents').2 = .error cause) :
    (t.write path' contents').1.HasFile path contents := by
  obtain ⟨t₁, hgrows, ⟨_, hwrite⟩ | ⟨_, _, _, hwrite⟩⟩ := t.write_cases path' contents'
  · rw [hwrite]
    exact h.of_grows hgrows
  · simp [hwrite] at herror

/-- A file in a folder stays as it is when one with another name is written there. -/
theorem HasFile.write_of_ne {contents contents' : ByteArray} {name' : String}
    (h : t.HasFile (Path.join folder name) contents) (hname : Path.IsPlain name)
    (hname' : Path.IsPlain name') (hne : name' ≠ name) :
    (t.write (Path.join folder name') contents').1.HasFile (Path.join folder name) contents := by
  obtain ⟨t₁, hgrows, ⟨_, hwrite⟩ | ⟨q, hq, hfolder, hwrite⟩⟩ :=
    t.write_cases (Path.join folder name') contents'
  · rw [hwrite]
    exact h.of_grows hgrows
  · obtain ⟨p, hp, he⟩ := hasFile_iff.1 (h.of_grows hgrows)
    rw [hwrite, hasFile_iff]
    refine ⟨p, (keepsFolders_insert hfolder _).resolve?_eq hp, ?_⟩
    rw [entry?_insert (ne_nil_of_isFolder hfolder), if_neg, he]
    rintro rfl
    have hlast := getLast?_of_resolve?_join hname hp
    rw [getLast?_of_resolve?_join hname' hq] at hlast
    exact hne (Option.some.inj hlast)

end FileTree

end Highlighting
