import UcVfs.Fatfs.FileCalls

/-!
# Sessions

Any number of files of a volume are opened, used and closed, in any order. The FAT, the window and
the buffers do what a directory without clusters does, each file is as if it had the volume for
itself, and what was synchronized is there after the next mount.
-/

namespace UcVfs.Fatfs

open Framework

/-- A call on the file `i`. There is one object for each file. -/
inductive FileCall (ι : Type)
  | fOpen (i : ι) (mode : ℕ) (fp : Fil Mem)
  | on (i : ι) (op : FileOp)

/-- The file that a call opens. -/
def FileCall.opens {ι : Type} : FileCall ι → Option ι
  | .fOpen i _ _ => some i
  | .on _ _ => none

/-- The objects of the open files, and the volume. -/
structure Session (ι : Type) where
  files : ι → Option (Fil Mem)
  fs : FATFS

/-- The directory and the objects as their users see them. -/
structure Files (ι : Type) where
  dir : RootDir ι
  objs : ι → Option (FilObj ι)

section Runs

variable {ι : Type} [DecidableEq ι] (v : MountedVolume) (validate : Fil Mem → FATFS → FResult)
  (dirs : ι → DirPlace v.toGeometry)

/-- A call on an object that is not open is refused by `validate`. -/
def Session.call : FileCall ι → Session ι → Option (Outcome × Session ι)
  | .fOpen i mode fp,s =>
    match FATFS.fOpen (dirs i) mode fp s.fs with
    | none => none
    | some (res,fp,fs) =>
      some (⟨res,[],0⟩,⟨Function.update s.files i (if res = .ok then some fp else none),fs⟩)
  | .on i op,s =>
    match s.files i with
    | none => some (⟨.invalidObject,[],0⟩,s)
    | some fp =>
      let (out,st,fs) := perform v validate (dirs i) op fp s.fs
      some (out,⟨Function.update s.files i st,fs⟩)

def Session.run : List (FileCall ι) → Session ι → Option (List Outcome × Session ι)
  | [],s => some ([],s)
  | c :: calls,s =>
    match s.call v validate dirs c with
    | none => none
    | some (out,s) =>
      match run calls s with
      | none => none
      | some (outs,s) => some (out :: outs,s)

/-- No file is opened that is open: without `FF_FS_LOCK` this is left to the caller. -/
def Session.Once : List (FileCall ι) → Session ι → Prop
  | [],_ => True
  | c :: calls,s => (∀ i ∈ c.opens,s.files i = none) ∧
    ∀ out s',s.call v validate dirs c = some (out,s') → Once calls s'

/-- What a call is for the users. -/
inductive Files.Step (free : ℕ) (t : Files ι) : FileCall ι → Outcome → Files ι → Prop
  | fOpen {i : ι} {mode : ℕ} {fp : Fil Mem} {blank o : FilObj ι} {res : FResult} {dir : RootDir ι}
      (hopen : UcVfs.fOpen blank i mode t.dir = ((res,o),dir)) :
    Step free t (.fOpen i mode fp) ⟨res,[],0⟩
      ⟨dir,Function.update t.objs i (if res = .ok then some o else none)⟩
  | closed {i : ι} {op : FileOp} (hi : t.objs i = none) :
    Step free t (.on i op) ⟨.invalidObject,[],0⟩ t
  | on {i : ι} {op : FileOp} {o : FilObj ι} {out : Outcome} {dir : RootDir ι} {o' : Option (FilObj ι)}
      (hi : t.objs i = some o) (hserves : Serves free t.dir o op out dir o') :
    Step free t (.on i op) out ⟨dir,Function.update t.objs i o'⟩

/-- A history of calls with what they gave back, on the volume and for the users. A call falls short
for its users only when it has left no cluster of the volume free. -/
inductive Session.Follows : Session ι → Files ι → List (FileCall ι) → List Outcome → Session ι →
    Files ι → Prop
  | nil {s : Session ι} {t : Files ι} : Follows s t [] [] s t
  | cons {s s₁ s' : Session ι} {t t₁ t' : Files ι} {c : FileCall ι} {out : Outcome}
      {calls : List (FileCall ι)} {outs : List Outcome}
      (call : s.call v validate dirs c = some (out,s₁))
      (step : t.Step (v.free s₁.fs.view).card c out t₁) (rest : Follows s₁ t₁ calls outs s' t') :
    Follows s t (c :: calls) (out :: outs) s' t'

end Runs

/-! ### Files beside each other -/

section Others

variable {ι Name : Type} [DecidableEq ι] {v : MountedVolume} {d d' : DirPlace v.toGeometry}
  {chains chains' : ι → List ℕ} {i j : ι} {name : Name} {cs : List ℕ} {n n' : ℕ} {e : DirEntry}
  {st : Option (Fil Mem)} {o : Option (FilObj Name)} {fs fs' : FATFS}

/-- A file is what it was when its entry and its clusters are. -/
theorem Stored.same (h : Stored v d chains j name cs n e fs st o)
    (hholds : Holds v.toGeometry chains' j cs n' fs')
    (hentry : ∀ k < 32,fs'.view (d.addr + k) = fs.view (d.addr + k))
    (hdata : ∀ a,v.Sectors cs (a / SS) → fs'.view a = fs.view a) :
    Stored v d chains' j name cs n' e fs' st o := by
  cases h with
  | closed hfiled => exact .closed (hfiled.congr hentry hdata)
  | @opened fp o hlive =>
    have hopened : Opened v.toGeometry chains' j cs n' fp fs' :=
      ⟨hlive.toBuffered.same hdata List.prefix_rfl hholds,hlive.err,hlive.sclust,hlive.within,
        hlive.covered,hlive.clust,hlive.loaded⟩
    have hrep := hlive.represents
    refine .opened ⟨hopened,⟨hrep.fptr,hrep.objsize,hrep.mode,fun k hk => ?_⟩,hlive.dirPtr,?_,
      fun hclean => (hlive.filed hclean).imp_right fun hfiled => hfiled.congr hentry hdata⟩
    · have hshown := shown_congr fp (hdata _ (sectors_place (hk.trans_le hlive.covered)))
      rw [Geometry.content,hshown]
      exact hrep.bytes k hk
    · rw [hentry 11 (by decide)]
      exact hlive.attr

/-- The clusters of another file. -/
theorem Aside.data (h : Aside v d cs fs fs') (hij : j ≠ i)
    (hholds : Holds v.toGeometry chains j (chains j) n fs) (hhome : ¬v.Sectors (chains j) d.sect)
    (halloc : Allocated v.toGeometry (Function.update chains i cs) fs') :
    (∀ a,v.Sectors (chains j) (a / SS) → fs'.view a = fs.view a) ∧
      ¬v.Sectors (chains j) fs'.winsect := by
  have hchain : Function.update chains i cs j = chains j := Function.update_of_ne hij _ _
  refine ⟨fun a ha => ?_,?_⟩
  · obtain ⟨hdisk,hfats,hinfo,hout⟩ := hholds.sector_away hhome ha
    refine h.view a hdisk hfats (fun hsect => hij ?_) hout hinfo
    exact halloc.sector (by rwa [hchain]) (by rwa [Function.update_self])
  · rcases h.window with hat | hfat | hat | ⟨htype,hat⟩
    · rw [hat]
      exact hholds.away
    · exact fun hsect => data_not_fat (hholds.sectors hsect).1 hfat
    · rwa [hat]
    · rw [hat]
      intro hsect
      have hlo := (hholds.sectors hsect).1
      have hfit := v.infoFits htype
      have hfats := v.fatsFit
      omega

omit [DecidableEq ι] in
/-- The entry of another file. -/
theorem Aside.entry (h : Aside v d cs fs fs') (hhome : ¬v.Sectors cs d'.sect)
    (hapart : d'.addr + 32 ≤ d.addr ∨ d.addr + 32 ≤ d'.addr) :
    ∀ k < 32,fs'.view (d'.addr + k) = fs.view (d'.addr + k) := by
  intro k hk
  obtain ⟨hsect,hdisk,hfats,hinfo⟩ := dir_behind d' hk
  exact h.view _ hdisk hfats (by rwa [hsect]) (by omega) hinfo

end Others

/-! ### Sessions of a volume -/

/-- The volume holds the files that its users see. The entries are in the root directory of a FAT12
or FAT16 volume or in the chains `κ` of directories. -/
structure Serving {ι κ : Type} [DecidableEq ι] [DecidableEq κ] (v : MountedVolume)
    (dirs : ι → DirPlace v.toGeometry) (chains : ι ⊕ κ → List ℕ) (s : Session ι) (t : Files ι) : Prop
    where
  alloc : Allocated v.toGeometry chains s.fs
  away : ∀ i,¬v.Sectors (chains (.inl i)) s.fs.winsect
  home : ∀ i,(dirs i).sect < v.database ∨ ∃ k,v.Sectors (chains (.inr k)) (dirs i).sect
  apart : ∀ i j,i ≠ j → (dirs i).addr + 32 ≤ (dirs j).addr ∨ (dirs j).addr + 32 ≤ (dirs i).addr
  stored : ∀ i,∃ e,t.dir i = some e ∧ Stored v (dirs i) chains (.inl i) i (chains (.inl i))
    (v.free s.fs.view).card e s.fs (s.files i) (t.objs i)
  quiet : s.fs.wflag = true → ∃ i,Changed (s.files i)

section Serving

variable {ι κ : Type} [DecidableEq ι] [DecidableEq κ] {v : MountedVolume}
  {validate : Fil Mem → FATFS → FResult} {dirs : ι → DirPlace v.toGeometry} {chains : ι ⊕ κ → List ℕ}
  {s : Session ι} {t : Files ι} {i : ι}

theorem Serving.holds (h : Serving v dirs chains s t) (i : ι) :
    Holds v.toGeometry chains (.inl i) (chains (.inl i)) (v.free s.fs.view).card s.fs :=
  ⟨by rw [Function.update_eq_self]; exact h.alloc,rfl,h.away i⟩

theorem Serving.homes (h : Serving v dirs chains s t) (i j : ι) :
    Home v.toGeometry chains (.inl j) (dirs i).sect :=
  (h.home i).imp_right fun ⟨k,hk⟩ => ⟨.inr k,Sum.inr_ne_inl,hk⟩

/-- One file has changed, and the others are as they were. -/
theorem Serving.step (h : Serving v dirs chains s t) {cs : List ℕ} {e : DirEntry}
    {st : Option (Fil Mem)} {o : Option (FilObj ι)} {fs : FATFS}
    (hholds : Holds v.toGeometry chains (.inl i) cs (v.free fs.view).card fs)
    (haside : Aside v (dirs i) cs s.fs fs)
    (hstored : Stored v (dirs i) chains (.inl i) i cs (v.free fs.view).card e fs st o)
    (hquiet : fs.wflag = true → Changed st ∨ s.fs.wflag = true ∧ ¬Changed (s.files i)) :
    Serving v dirs (Function.update chains (.inl i) cs) ⟨Function.update s.files i st,fs⟩
      ⟨Function.update t.dir i (some e),Function.update t.objs i o⟩ := by
  have halloc := hholds.alloc
  have hself : Function.update chains (.inl i) cs (.inl i) = cs := Function.update_self ..
  have hne : ∀ {j},j ≠ i → (Sum.inl j : ι ⊕ κ) ≠ .inl i := fun hj he => hj (Sum.inl.inj he)
  have hchain : ∀ {j},j ≠ i → Function.update chains (.inl i) cs (.inl j) = chains (.inl j) :=
    fun hj => Function.update_of_ne (hne hj) _ _
  have hother : ∀ {j},j ≠ i → _ := fun hj =>
    haside.data (hne hj) (h.holds _) ((h.homes i _).away (h.holds _)) halloc
  have haway : ∀ j,¬v.Sectors (Function.update chains (.inl i) cs (.inl j)) fs.winsect := by
    intro j
    by_cases hj : j = i
    · rw [hj,hself]
      exact hholds.away
    · rw [hchain hj]
      exact (hother hj).2
  have hrest : ∀ j,Holds v.toGeometry (Function.update chains (.inl i) cs) (.inl j)
      (Function.update chains (.inl i) cs (.inl j)) (v.free fs.view).card fs := fun j =>
    ⟨by rwa [Function.update_eq_self],rfl,haway j⟩
  refine ⟨halloc,haway,fun j => ?_,h.apart,fun j => ?_,fun hdirty => ?_⟩
  · refine (h.home j).imp_right fun ⟨k,hk⟩ => ⟨k,?_⟩
    rwa [Function.update_of_ne Sum.inr_ne_inl]
  · by_cases hj : j = i
    · subst hj
      have hthis := hrest j
      simp only [Function.update_self] at hthis ⊢
      exact ⟨e,rfl,hstored.same hthis (fun _ _ => rfl) fun _ _ => rfl⟩
    · obtain ⟨ej,hej,hstoredj⟩ := h.stored j
      have hthis := hrest j
      rw [hchain hj] at hthis
      simp only [Function.update_of_ne hj,hchain hj]
      exact ⟨ej,hej,hstoredj.same hthis
        (haside.entry ((h.homes j i).away hholds) (h.apart j i hj)) (hother hj).1⟩
  · rcases hquiet hdirty with hchanged | ⟨hdirty₁,hclean⟩
    · refine ⟨i,?_⟩
      show Changed (Function.update s.files i st i)
      rwa [Function.update_self]
    · obtain ⟨j,hj⟩ := h.quiet hdirty₁
      have hji : j ≠ i := by
        rintro rfl
        exact hclean hj
      refine ⟨j,?_⟩
      show Changed (Function.update s.files i st j)
      rwa [Function.update_of_ne hji]

/-- A file that is closed. -/
theorem Serving.closed (h : Serving v dirs chains s t) (hi : s.files i = none) :
    t.objs i = none ∧ ∃ e,t.dir i = some e ∧
      Filed v.toGeometry (dirs i).addr (chains (.inl i)) s.fs.view e := by
  obtain ⟨e,he,hstored⟩ := h.stored i
  rw [hi] at hstored
  generalize t.objs i = o at hstored
  cases hstored with
  | closed hfiled => exact ⟨rfl,e,he,hfiled⟩

/-- A file that is open. -/
theorem Serving.live (h : Serving v dirs chains s t) {fp : Fil Mem} (hi : s.files i = some fp) :
    ∃ o e,t.objs i = some o ∧ t.dir i = some e ∧ Live v (dirs i) chains (.inl i) i (chains (.inl i))
      (v.free s.fs.view).card e fp s.fs o := by
  obtain ⟨e,he,hstored⟩ := h.stored i
  rw [hi] at hstored
  generalize t.objs i = o at hstored ⊢
  cases hstored with
  | @opened _ o hlive => exact ⟨o,e,rfl,he,hlive⟩

/-- Opening a file. -/
theorem Serving.open (h : Serving v dirs chains s t) (hi : s.files i = none) (mode : ℕ)
    (fp : Fil Mem) :
    ∃ out s' chains' t',s.call v validate dirs (.fOpen i mode fp) = some (out,s') ∧
      t.Step (v.free s'.fs.view).card (.fOpen i mode fp) out t' ∧
      Serving (κ := κ) v dirs chains' s' t' := by
  obtain ⟨_,e,he,hfiled⟩ := h.closed hi
  obtain ⟨res,fp',fs',cs,e',hcall,hres,hdir,hready,hquiet,hlive⟩ := hfiled.fOpen h.alloc he
    ((h.homes i i).away (h.holds i)) mode fp ⟨none,0,0,0,[]⟩
  have haside : Aside v (dirs i) cs s.fs fs' :=
    ⟨fun a ha hfats _ => hready.aside.view a ha hfats fun hsect => absurd hsect.choose_spec.1
      List.not_mem_nil,hready.aside.mirrored,hready.aside.window⟩
  have hholds : Holds v.toGeometry chains (.inl i) cs (v.free fs'.view).card fs' :=
    ⟨hready.alloc,rfl,hready.away⟩
  obtain ⟨o,hopen⟩ : ∃ o,UcVfs.fOpen ⟨none,0,0,0,[]⟩ i mode t.dir =
      ((res,o),Function.update t.dir i (some e')) := ⟨_,Prod.ext (Prod.ext hres rfl) hdir⟩
  rw [hopen] at hlive
  have hstored : Stored v (dirs i) chains (.inl i) i cs (v.free fs'.view).card e' fs'
      (if res = .ok then some fp' else none) (if res = .ok then some o else none) := by
    by_cases hok : res = .ok
    · rw [if_pos hok,if_pos hok]
      exact .opened (hlive hok)
    · rw [if_neg hok,if_neg hok]
      exact .closed hready.filed
  refine ⟨_,_,_,_,?_,.fOpen hopen,h.step hholds haside hstored fun hdirty => ?_⟩
  · simp only [Session.call,hcall]
  · rcases hquiet hdirty with hold | ⟨hok,hchanged⟩
    · refine Or.inr ⟨hold,?_⟩
      rintro ⟨_,hopen,_⟩
      rw [hi] at hopen
      cases hopen
    · exact Or.inl ⟨fp',if_pos hok,hchanged⟩

/-- Every call serves the file that it is for and leaves the others as they are. -/
theorem Serving.call (h : Serving v dirs chains s t) (hvalid : ∀ fp fs,validate fp fs = .ok)
    (c : FileCall ι) (honce : ∀ i ∈ c.opens,s.files i = none) :
    ∃ out s' chains' t',s.call v validate dirs c = some (out,s') ∧
      t.Step (v.free s'.fs.view).card c out t' ∧ Serving (κ := κ) v dirs chains' s' t' := by
  cases c with
  | fOpen i mode fp => exact h.open (honce i rfl) mode fp
  | on i op =>
    cases hi : s.files i with
    | none =>
      have hcall : s.call v validate dirs (.on i op) = some (⟨.invalidObject,[],0⟩,s) := by
        simp only [Session.call,hi]
      exact ⟨_,s,chains,t,hcall,.closed (h.closed hi).1,h⟩
    | some fp =>
      obtain ⟨o,e,ho,he,hlive⟩ := h.live hi
      obtain ⟨out,cs',n',e',st,fs',o',hcall,hp⟩ := hlive.perform hvalid he (h.homes i i) op
      have hn := hp.holds.free
      subst hn
      have hstep := Files.Step.on ho hp.serves
      refine ⟨out,⟨_,fs'⟩,_,_,?_,hstep,h.step hp.holds hp.aside hp.stored fun hdirty => ?_⟩
      · simp only [Session.call,hi,hcall]
      · refine (hp.quiet hdirty).imp_right fun ⟨hold,hclean⟩ => ⟨hold,?_⟩
        rintro ⟨_,hfp,hchanged⟩
        rw [hi] at hfp
        cases hfp
        exact hclean hchanged

/-- The small volume with its file, closed. -/
def tinySession : Session Unit := ⟨fun _ => none,tinyFs⟩

def tinyFiles : Files Unit := ⟨fun _ => some ⟨AM_ARC,3,[97,98,99]⟩,fun _ => none⟩

theorem tiny_filed : Filed tinyVolume.toGeometry tinyDir.addr [2] tinyFs.view ⟨AM_ARC,3,[97,98,99]⟩ := by
  refine ⟨by decide,by decide,by decide,by decide,?_⟩
  decide

theorem tiny_serving : Serving tinyVolume (fun _ => tinyDir) tinyChains tinySession tinyFiles :=
  ⟨tiny_allocated,fun _ => tiny_opened.holds.away,fun _ => Or.inl (by decide),
    fun _ _ hij => absurd rfl hij,fun _ => ⟨_,rfl,.closed tiny_filed⟩,
    fun hdirty => absurd hdirty Bool.false_ne_true⟩

/-- In every run the FAT volume does what the directory does, and falls short of it only when it is
full. -/
theorem Serving.session (h : Serving v dirs chains s t) (hvalid : ∀ fp fs,validate fp fs = .ok)
    (calls : List (FileCall ι)) (honce : s.Once v validate dirs calls) :
    ∃ outs s' chains' t',s.run v validate dirs calls = some (outs,s') ∧
      Session.Follows v validate dirs s t calls outs s' t' ∧
      Serving (κ := κ) v dirs chains' s' t' := by
  induction calls generalizing s t chains with
  | nil => exact ⟨[],s,chains,t,rfl,.nil,h⟩
  | cons c calls ih =>
    obtain ⟨out,s₁,chains₁,t₁,hcall,hstep,h₁⟩ := h.call hvalid c honce.1
    obtain ⟨outs,s',chains',t',hrun,hfollows,hs'⟩ := ih h₁ (honce.2 out s₁ hcall)
    refine ⟨out :: outs,s',chains',t',?_,.cons hcall hstep hfollows,hs'⟩
    simp only [Session.run,hcall,hrun]

/-- The file is opened, read, changed, synchronized and closed. -/
def tinyCalls : List (FileCall Unit) :=
  [.fOpen () (FA_READ ||| FA_WRITE) tinyFil,.on () (.fRead 2 fun _ => 0),.on () (.fWrite [120,121]),
    .on () .fSync,.on () .fClose]

theorem Serving.session_tiny : ∃ outs s' chains' t',
    tinySession.run tinyVolume staysMounted (fun _ => tinyDir) tinyCalls = some (outs,s') ∧
    Session.Follows tinyVolume staysMounted (fun _ => tinyDir) tinySession tinyFiles tinyCalls outs s' t' ∧
    Serving (κ := Empty) tinyVolume (fun _ => tinyDir) chains' s' t' := by
  refine Serving.session tiny_serving (fun _ _ => rfl) _ ⟨fun _ _ => rfl,fun _ _ _ => ?_⟩
  have hnone : ∀ {s : Session Unit} (i : Unit),i ∈ (none : Option Unit) → s.files i = none :=
    fun _ hi => absurd hi (Option.not_mem_none _)
  exact ⟨hnone,fun _ _ _ => ⟨hnone,fun _ _ _ => ⟨hnone,fun _ _ _ => ⟨hnone,fun _ _ _ => trivial⟩⟩⟩⟩

/-- After the next mount the directory is what it was, if every file that had changed was
synchronized or closed. -/
theorem Serving.remounted (h : Serving v dirs chains s t) (hsaved : ∀ i,¬Changed (s.files i))
    {fs : FATFS} (hmount : Remounted v.toGeometry s.fs.disk fs)
    (haway : ∀ i,¬v.Sectors (chains (.inl i)) fs.winsect) :
    Serving v dirs chains ⟨fun _ => none,fs⟩ ⟨t.dir,fun _ => none⟩ := by
  have hclean : s.fs.wflag = false := by
    by_contra hdirty
    obtain ⟨i,hi⟩ := h.quiet (Bool.not_eq_false _ ▸ hdirty)
    exact hsaved i hi
  have hview : fs.view = s.fs.view := by
    rw [hmount.coherent.view_clean hmount.clean,hmount.disk,h.alloc.coherent.view_clean hclean]
  obtain ⟨halloc,_⟩ := h.alloc.congr hmount.coherent (fun a _ _ => congrFun hview a)
    (Or.inr hmount.counted)
  refine ⟨halloc,haway,h.home,h.apart,fun i => ?_,fun hdirty => ?_⟩
  · cases hi : s.files i with
    | none =>
      obtain ⟨_,e,he,hfiled⟩ := h.closed hi
      exact ⟨e,he,.closed (by rw [hview]; exact hfiled)⟩
    | some fp =>
      obtain ⟨_,e,_,he,hlive⟩ := h.live hi
      obtain ⟨_,hfiled⟩ := hlive.filed fun hm => hsaved i ⟨fp,hi,hm⟩
      exact ⟨e,he,.closed (by rw [hview]; exact hfiled)⟩
  · exact absurd (hmount.clean.symm.trans hdirty) Bool.false_ne_true

/-- The file is opened and changed, and the change is synchronized. -/
def tinySynced : List (FileCall Unit) :=
  [.fOpen () (FA_READ ||| FA_WRITE) tinyFil,.on () (.fWrite [120,121]),.on () .fSync]

theorem Serving.remounted_tiny : ∃ outs s chains dir,
    tinySession.run tinyVolume staysMounted (fun _ => tinyDir) tinySynced = some (outs,s) ∧
    (s.files ()).isSome ∧ Serving (ι := Unit) (κ := Empty) tinyVolume (fun _ => tinyDir)
      chains ⟨fun _ => none,tinyMount s.fs.disk⟩ ⟨dir,fun _ => none⟩ := by
  have hvalid : ∀ fp fs,staysMounted fp fs = .ok := fun _ _ => rfl
  obtain ⟨out₁,s₁,chains₁,t₁,hcall₁,_,h₁⟩ := tiny_serving.call hvalid
    (.fOpen () (FA_READ ||| FA_WRITE) tinyFil) fun _ _ => rfl
  obtain ⟨out₂,s₂,chains₂,t₂,hcall₂,_,h₂⟩ := h₁.call hvalid (.on () (.fWrite [120,121]))
    fun _ hi => absurd hi (Option.not_mem_none _)
  obtain ⟨out₃,s₃,chains₃,t₃,hcall₃,_,h₃⟩ := h₂.call hvalid (.on () .fSync)
    fun _ hi => absurd hi (Option.not_mem_none _)
  have hrun : tinySession.run tinyVolume staysMounted (fun _ => tinyDir) tinySynced =
      some ([out₁,out₂,out₃],s₃) := by
    simp only [tinySynced,Session.run,hcall₁,hcall₂,hcall₃]
  have hflag : (tinySession.run tinyVolume staysMounted (fun _ => tinyDir) tinySynced).map
      (fun r => (r.2.files ()).map (·.flag)) = some (some (FA_READ ||| FA_WRITE)) := by decide
  rw [hrun,Option.map_some,Option.some.injEq] at hflag
  obtain ⟨fp,hfp,hmode⟩ := Option.map_eq_some_iff.mp hflag
  have hsaved : ∀ i,¬Changed (s₃.files i) := by
    rintro ⟨⟩ ⟨fp',hfp',hchanged⟩
    obtain rfl : fp = fp' := Option.some.inj (hfp.symm.trans hfp')
    rw [hmode] at hchanged
    exact absurd hchanged (by decide)
  exact ⟨_,s₃,chains₃,t₃.dir,hrun,by rw [hfp]; rfl,Serving.remounted h₃ hsaved
    (tiny_remounted s₃.fs.disk) fun i => (h₃.homes i i).away (h₃.holds i)⟩

end Serving

end UcVfs.Fatfs
