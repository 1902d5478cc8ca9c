import UcVfs.Fatfs.RootTable
import UcVfs.Filesystems.StatExact
import UcVfs.Littlefs.RootChain
import UcVfs.Spiffs.Lookup
import UcVfs.Vfs.Listing

/-!
# What a listing says

The entries of the root directory of a volume, and the records that `vfs_readdir` fills in for
the mount point.
-/

namespace UcVfs

open Framework

private theorem forall₂_of_mem {α β : Type} {R S : α → β → Prop} {as : List α} {bs : List β}
    (h : List.Forall₂ R as bs) (himp : ∀ a,∀ b ∈ bs,R a b → S a b) : List.Forall₂ S as bs := by
  induction h with
  | nil => exact .nil
  | cons hab _ ih =>
    exact .cons (himp _ _ List.mem_cons_self hab)
      (ih fun a b hb => himp a b (List.mem_cons_of_mem _ hb))

private theorem countP_lt {α : Type} {p q : α → Bool} {as : List α} (himp : ∀ a,p a → q a) {a : α}
    (ha : a ∈ as) (hq : q a) (hp : ¬p a) : as.countP p < as.countP q := by
  induction as with
  | nil => cases ha
  | cons b as ih =>
    rw [List.countP_cons,List.countP_cons]
    rcases List.mem_cons.mp ha with rfl | ha
    · have hle : as.countP p ≤ as.countP q := List.countP_mono_left fun a _ => himp a
      rw [if_pos hq,if_neg hp]
      omega
    · have hlt := ih ha
      have himp' := himp b
      split
      · rename_i hb
        rw [if_pos (himp' hb)]
        omega
      · omega

private theorem countP_eq {α β γ : Type} {R : α → β → Prop} {S : α → γ → Prop} {p : β → Bool}
    {q : γ → Bool} {as : List α} {bs : List β} {cs : List γ} (hR : List.Forall₂ R as bs)
    (hS : List.Forall₂ S as cs) (hiff : ∀ a b c,R a b → S a c → (q c ↔ p b)) :
    cs.countP q = bs.countP p := by
  induction hR generalizing cs with
  | nil =>
    cases hS
    rfl
  | cons hab _ ih =>
    cases hS with
    | cons hac hrest => simp only [List.countP_cons,ih hrest,hiff _ _ _ hab hac]

namespace Driver

variable {h : Host} {File Dir Drv : Type} {nullPtr : File × Dir → File × Dir}
  {zeroed : File × Dir}

section Calls

variable (d : Driver h.Mnt File Dir Drv) {s : State (World h nullPtr zeroed Drv)} {tcb : h.Task}
  {dirp : h.Dir} {m : h.Mnt} {dir dir' : Dir} {drv : Drv} {r : Int}

/-- The DIR object is open on the mount. -/
def Opened (m : h.Mnt) (dirp : h.Dir) (dir : Dir) (s : State (World h nullPtr zeroed Drv)) : Prop :=
  ∃ file,s.dirs dirp = ⟨some d.dirOps,some m,(file,dir)⟩

theorem vfsOpendir_run {dirname relPath : CStr} (hsel : Selects tcb s dirname m relPath)
    (hroot : relPath.chars = [] ∨ relPath = CStr.root)
    {sp : Sysop (World h nullPtr zeroed Drv)} (hfs : (s.mounts m).fs = some (d.fileSystem sp))
    (hopen : d.opendir m zeroed.2 CStr.root s.drv = some ((r,dir),drv)) (hr : 0 ≤ r) :
    ∃ s',(vfsOpendir (some dirp) (some dirname)).run (Action.exec tcb) s = some (0,s') ∧
      d.Opened m dirp dir s' ∧ s'.drv = drv := by
  have hans : dirAns (⟨some m,zeroed⟩ : DirView (World h nullPtr zeroed Drv)) Dirent.zero s.drv
      (fun m dir => (d.opendir m dir CStr.root s.drv).map
        fun w => (((w.1.1,Dirent.zero),w.1.2),w.2)) =
      ⟨r,Dirent.zero,(zeroed.1,dir),drv⟩ := by
    simp [dirAns,hopen]
  obtain ⟨s',hrun,hdir,hdrv⟩ := UcVfs.vfsOpendir_run dirp hsel hroot hfs rfl rfl hans hr
  exact ⟨s',hrun,⟨_,hdir⟩,hdrv⟩

theorem vfsReaddir_run (hopened : d.Opened m dirp dir s) {entry entry' : Dirent}
    (hread : d.readdir m dir entry s.drv = some (((r,entry'),dir'),drv)) :
    ∃ s',(vfsReaddir (some dirp) (some entry)).run (Action.exec tcb) s =
        some ((r,some entry'),s') ∧ d.Opened m dirp dir' s' ∧ s'.drv = drv := by
  obtain ⟨file,hdir⟩ := hopened
  have hans : dirAns (⟨some m,(file,dir)⟩ : DirView (World h nullPtr zeroed Drv)) entry s.drv
      (fun m dir => d.readdir m dir entry s.drv) = ⟨r,entry',(file,dir'),drv⟩ := by
    simp [dirAns,hread]
  obtain ⟨s',hrun,hdir',hdrv⟩ := UcVfs.vfsReaddir_run hdir rfl hans
  exact ⟨s',hrun,⟨_,hdir'⟩,hdrv⟩

end Calls

/-- How the driver reads a directory on a mount: which entries lie ahead of a directory object,
and what is stored for each of them in the caller's record. -/
structure DirReader (d : Driver h.Mnt File Dir Drv) (m : h.Mnt) (β : Type) where
  At : List β → Dir → Drv → Prop
  store : Dirent → β → Dirent
  atEnd : ∀ {dir drv},At [] dir drv → ∀ e,
    ∃ e' dir' drv',d.readdir m dir e drv = some (((0,e'),dir'),drv')
  atEntry : ∀ {b bs dir drv},At (b :: bs) dir drv → ∀ e,
    ∃ dir' drv',d.readdir m dir e drv = some (((1,store e b),dir'),drv') ∧ At bs dir' drv'

section Reader

variable {d : Driver h.Mnt File Dir Drv} {m : h.Mnt} {β : Type} (reader : DirReader d m β)

/-- Opening the root directory leaves these entries ahead. -/
def DirReader.Opens (drv : Drv) (bs : List β) : Prop :=
  ∀ dir,∃ dir' drv',d.opendir m dir CStr.root drv = some ((0,dir'),drv') ∧ reader.At bs dir' drv'

/-- A record that was filled in for an entry. -/
def DirReader.Stored (e : Dirent) (b : β) : Prop := ∃ e₀ : Dirent,e₀.Sized ∧ e = reader.store e₀ b

variable {reader} {s : State (World h nullPtr zeroed Drv)} {tcb : h.Task} {dirp : h.Dir}
  {dirname relPath : CStr} {bs : List β} {names : List (List Char)}

theorem DirReader.Opens.listing (dirp : h.Dir) (hopens : reader.Opens s.drv bs)
    (hsel : Selects tcb s dirname m relPath) (hroot : relPath.chars = [] ∨ relPath = CStr.root)
    {sp : Sysop (World h nullPtr zeroed Drv)} (hfs : (s.mounts m).fs = some (d.fileSystem sp)) :
    ∃ s',(vfsOpendir (some dirp) (some dirname)).run (Action.exec tcb) s = some (0,s') ∧
      ∀ records : ℕ → Dirent,(∀ i,(records i).Sized) →
        ∃ out,Listing tcb dirp records 0 s' out ∧ List.Forall₂ reader.Stored out bs := by
  obtain ⟨dir,drv,hopen,hat⟩ := hopens zeroed.2
  obtain ⟨s',hrun,hopened,rfl⟩ := vfsOpendir_run d hsel hroot hfs hopen (le_refl 0)
  refine ⟨s',hrun,fun records hsized => ?_⟩
  let At (bs : List β) (s : State (World h nullPtr zeroed Drv)) : Prop :=
    ∃ dir,d.Opened m dirp dir s ∧ reader.At bs dir s.drv
  have hat' : At bs s' := ⟨dir,hopened,hat⟩
  refine listing_of_entries ?_ ?_ hsized hat' 0
  · rintro s e ⟨dir,hopened,hat⟩
    obtain ⟨e',dir',drv',hread⟩ := reader.atEnd hat e
    obtain ⟨s',hrun,-⟩ := vfsReaddir_run d hopened hread
    exact ⟨some e',s',hrun⟩
  · rintro s e b bs ⟨dir,hopened,hat⟩
    obtain ⟨dir',drv',hread,hat'⟩ := reader.atEntry hat e
    obtain ⟨s',hrun,hopened',rfl⟩ := vfsReaddir_run d hopened hread
    exact ⟨s',hrun,dir',hopened',hat'⟩

/-- A listing is exact when every record is, and the entries are the names. -/
theorem DirReader.Opens.listsExactly (hopens : reader.Opens s.drv bs)
    (hsel : Selects tcb s dirname m relPath) (hroot : relPath.chars = [] ∨ relPath = CStr.root)
    {sp : Sysop (World h nullPtr zeroed Drv)} (hfs : (s.mounts m).fs = some (d.fileSystem sp))
    {text : β → List Char} (hreads : ∀ b ∈ bs,∀ e,reader.Stored e b → e.Reads (text b))
    (hnames : bs.map text = names.map (List.take VFS_NAME_MAX)) :
    ListsExactly tcb dirp dirname s names := by
  obtain ⟨s',hrun,hlist⟩ := hopens.listing dirp hsel hroot hfs
  refine ⟨s',hrun,fun records hsized => ?_⟩
  obtain ⟨out,hlisting,hstored⟩ := hlist records hsized
  refine ⟨out,bs.map text,hlisting,?_,by rw [hnames]⟩
  rw [List.forall₂_map_right_iff]
  exact forall₂_of_mem hstored fun e b hb h => hreads b hb e h

/-- What an exact listing says about the entries. -/
theorem DirReader.Opens.of_listsExactly (hopens : reader.Opens s.drv bs)
    (hsel : Selects tcb s dirname m relPath) (hroot : relPath.chars = [] ∨ relPath = CStr.root)
    {sp : Sysop (World h nullPtr zeroed Drv)} (hfs : (s.mounts m).fs = some (d.fileSystem sp))
    (hexact : ListsExactly tcb dirp dirname s names) :
    ∃ out texts,List.Forall₂ reader.Stored out bs ∧ List.Forall₂ Dirent.Reads out texts ∧
      texts.Perm (names.map (List.take VFS_NAME_MAX)) := by
  obtain ⟨s₁,hrun,hlist⟩ := hexact
  obtain ⟨s₂,hrun',hlist'⟩ := hopens.listing dirp hsel hroot hfs
  rw [hrun] at hrun'
  obtain rfl : s₁ = s₂ := (Prod.mk.inj (Option.some.inj hrun')).2
  let records (_ : ℕ) : Dirent := ⟨0,List.replicate (VFS_NAME_MAX + 1) nul⟩
  have hsized : ∀ i,(records i).Sized := fun i => List.length_replicate
  obtain ⟨out,texts,hlisting,hreads,hperm⟩ := hlist records hsized
  obtain ⟨out',hlisting',hstored⟩ := hlist' records hsized
  obtain rfl := hlisting.unique hlisting'
  exact ⟨out,texts,hstored,hreads,hperm⟩

end Reader

/-- Listing a mount point of the driver gives exactly the names where `holds` says so. -/
def ListingExact (d : Driver h.Mnt File Dir Drv)
    (names : h.Mnt → Drv → Option (List (List Char))) (valid holds : h.Mnt → Drv → Prop) : Prop :=
  ∀ (nullPtr : File × Dir → File × Dir) (zeroed : File × Dir)
    (sp : Sysop (World h nullPtr zeroed Drv)) (s : State (World h nullPtr zeroed Drv))
    (tcb : h.Task) (dirp : h.Dir) (dirname relPath : CStr) (m : h.Mnt) (ns : List (List Char)),
    Selects tcb s dirname m relPath → (relPath.chars = [] ∨ relPath = CStr.root) →
      (s.mounts m).fs = some (d.fileSystem sp) → names m s.drv = some ns → valid m s.drv →
    (ListsExactly tcb dirp dirname s ns ↔ holds m s.drv)

end Driver

/-! How the three file systems read the root directory. -/

/-- FatFs reads the table of the root directory as `f_readdir` does. -/
structure FatFs.ReadsRoot {Mnt : Type} (ff : FatFs Mnt) (root : ff.σ → Option RootTable)
    (stands : ff.Dir → ff.σ → DirPtr → Prop) : Prop where
  opendir : ∀ {s t path} (dp : ff.Dir),root s = some t → path.chars ≠ [] →
    (∀ c ∈ path.chars,c = '/') → ∃ dp' s',ff.opendir path dp s = (.ok,dp',s') ∧
      root s' = some t ∧ stands dp' s' ⟨0,false⟩
  readdir : ∀ {s t dp c},root s = some t → stands dp s c →
    ∃ fno dp' s',ff.readdir dp s = ((fReaddir t.slots fno c).1,dp',s') ∧
      root s' = some t ∧ stands dp' s' (fReaddir t.slots fno c).2

/-- littlefs reads the metadata pairs of the root directory as `lfs_dir_read` does. -/
structure LittleFs.ReadsRoot {Mnt : Type} (lf : LittleFs Mnt)
    (root : Mnt → lf.σ → Option Littlefs.RootChain)
    (stands : Mnt → lf.Dir → lf.σ → Littlefs.DirObj → Prop) : Prop where
  dirOpen : ∀ {m s t} (dir : lf.Dir),root m s = some t →
    ∃ dir' s',lf.dirOpen m dir CStr.root s = ((Littlefs.LFS_ERR_OK,dir'),s') ∧
      root m s' = some t ∧ stands m dir' s' ⟨0,0,0⟩
  dirRead : ∀ {m s t dir c} (info : LfsInfo),root m s = some t → stands m dir s c →
    ∃ dir' s',lf.dirRead m dir info s = (((Littlefs.lfsDirRead t c).1,dir'),s') ∧
      root m s' = some t ∧ stands m dir' s' (Littlefs.lfsDirRead t c).2

/-- SPIFFS reads the object lookup as `SPIFFS_readdir` does. -/
structure SpiffsFs.ReadsRoot {Mnt : Type} (sp : SpiffsFs Mnt)
    (lookup : Mnt → sp.σ → Option Spiffs.Lookup)
    (stands : Mnt → sp.Dir → sp.σ → Spiffs.DirObj → Prop) : Prop where
  opendir : ∀ {m s t} (path : CStr) (d : sp.Dir),lookup m s = some t →
    ∃ d' s',sp.opendir m path d s = ((true,d'),s') ∧ lookup m s' = some t ∧ stands m d' s' ⟨0,0⟩
  readdirEntry : ∀ {m s t d c e e' c'},lookup m s = some t → stands m d s c →
    Spiffs.SPIFFS_readdir t.blocks e c = some (e',c') →
    ∃ d' s',sp.readdir d e s = (((true,e'),d'),s') ∧ lookup m s' = some t ∧ stands m d' s' c'
  readdirEnd : ∀ {m s t d c e},lookup m s = some t → stands m d s c →
    Spiffs.SPIFFS_readdir t.blocks e c = none →
    ∃ e' d' s',sp.readdir d e s = (((false,e'),d'),s') ∧ sp.errno d' s' = Spiffs.SPIFFS_VIS_END

section Fatfs

variable {Mnt : Type} [DecidableEq Mnt] {ff : FatFs Mnt}

theorem fatfs_readdir_run {s : FatState ff} {dir dp : ff.Dir} {fi : FilInfo} {sys : ff.σ}
    (hread : ff.readdir dir s.sys = ((.ok,fi),dp,sys)) (entry : Dirent) :
    (Fatfs.readdir dir entry).run FatAct.exec s =
      some (((if fi.fname.headD nul = nul then (0,entry)
        else (1,⟨0,strncpy entry.name fi.fname VFS_NAME_MAX⟩)),dp),{ s with sys := sys }) := by
  simp only [Fatfs.readdir,Fatfs.act,Prog.act_bind,Prog.run,FatAct.exec,hread,if_true]
  split <;> rfl

end Fatfs

section FatfsReader

variable {h : Host} {ff : FatFs h.Mnt} {root : ff.σ → Option RootTable}
  {stands : ff.Dir → ff.σ → DirPtr → Prop}

/-- A name of spaces alone is taken for the end. -/
def listedNames (names : List ShortName) : List ShortName := names.takeWhile (·.text ≠ [])

/-- The directory object stands before these names. -/
def FatFs.Before (ff : FatFs h.Mnt) (root : ff.σ → Option RootTable)
    (stands : ff.Dir → ff.σ → DirPtr → Prop) (names : List ShortName) (dir : ff.Dir) (s : ff.σ) :
    Prop :=
  ∃ t c,root s = some t ∧ stands dir s c ∧
    (c.ahead t.slots).map FatSlot.name = names.map ShortName.field

/-- One `f_readdir`. -/
theorem FatFs.ReadsRoot.readdir_cases (hff : ff.ReadsRoot root stands) {names : List ShortName}
    {dir : ff.Dir} {s : ff.σ} (hbefore : ff.Before root stands names dir s) :
    ∃ fi dp s',ff.readdir dir s = ((.ok,fi),dp,s') ∧
      match names with
      | [] => fi.fname.headD nul = nul
      | n :: names => fi.fname = n.text ++ [nul] ∧ ff.Before root stands names dp s' := by
  obtain ⟨t,c,ht,hstands,hahead⟩ := hbefore
  obtain ⟨fno,dp,s',hread,ht',hstands'⟩ := hff.readdir ht hstands
  obtain ⟨hok,hspec⟩ := fReaddir_spec t.slots fno c
  refine ⟨(fReaddir t.slots fno c).1.2,dp,s',?_,?_⟩
  · rw [hread,← hok]
  · rcases hspec with ⟨hnone,hend⟩ | ⟨e,hsome,hname⟩
    · rw [hnone] at hahead
      cases names with
      | nil => exact hend
      | cons n names => cases hahead
    · rw [hsome] at hahead
      cases names with
      | nil => cases hahead
      | cons n names =>
        rw [List.map_cons,List.map_cons,List.cons.injEq] at hahead
        rw [hahead.1,sfnChars_field] at hname
        exact ⟨hname,t,_,ht',hstands',hahead.2⟩

def fatfsReader (hff : ff.ReadsRoot root stands) (m : h.Mnt) :
    Driver.DirReader (fatfsDriver ff) m ShortName where
  At ns dir s := ∃ names,ff.Before root stands names dir s.sys ∧ ns = listedNames names
  store e n := ⟨0,strncpy e.name (n.text ++ [nul]) VFS_NAME_MAX⟩
  atEnd := by
    intro dir s hat e
    obtain ⟨names,hbefore,hlisted⟩ := hat
    obtain ⟨fi,dp,sys,hread,hfi⟩ := hff.readdir_cases hbefore
    have hend : fi.fname.headD nul = nul := by
      cases names with
      | nil => exact hfi
      | cons n names =>
        by_cases htext : n.text = []
        · rw [hfi.1,htext]
          rfl
        · rw [listedNames,List.takeWhile_cons_of_pos (by simpa using htext)] at hlisted
          cases hlisted
    have hrun := fatfs_readdir_run hread e
    rw [if_pos hend] at hrun
    exact ⟨e,dp,_,hrun⟩
  atEntry := by
    intro n ns dir s hat e
    obtain ⟨names,hbefore,hlisted⟩ := hat
    obtain ⟨fi,dp,sys,hread,hfi⟩ := hff.readdir_cases hbefore
    cases names with
    | nil => cases hlisted
    | cons n' names =>
      by_cases htext : n'.text = []
      · rw [listedNames,List.takeWhile_cons_of_neg (by simpa using htext)] at hlisted
        cases hlisted
      · rw [listedNames,List.takeWhile_cons_of_pos (by simpa using htext),List.cons.injEq] at hlisted
        obtain ⟨rfl,hns⟩ := hlisted
        obtain ⟨c,cs,hchars⟩ := List.exists_cons_of_ne_nil htext
        have hfirst : fi.fname.headD nul ≠ nul := by
          rw [hfi.1,hchars]
          exact (n.text_graphic c (by rw [hchars]; exact List.mem_cons_self)).ne not_graphic_nul
        have hrun := fatfs_readdir_run hread e
        rw [if_neg hfirst,hfi.1] at hrun
        exact ⟨dp,_,hrun,names,hfi.2,hns⟩

theorem fatfsReader_opens (hff : ff.ReadsRoot root stands) {m : h.Mnt} {s : FatState ff}
    {t : RootTable} (ht : root s.sys = some t)
    (hbuf : (s.descs m).absPathStrBuff.length = FATFS_MAX_ABS_PATH_SIZE) :
    (fatfsReader hff m).Opens s (listedNames t.names) := by
  intro dir
  have hroot : CStr.root.belowCut.chars = ['/','/'] := rfl
  have hslashes : ∀ c ∈ CStr.root.belowCut.chars,c = '/' := by
    rw [hroot]
    exact List.forall_mem_cons.mpr ⟨rfl,List.forall_mem_cons.mpr ⟨rfl,fun c hc => nomatch hc⟩⟩
  have hne : CStr.root.belowCut.chars ≠ [] := by
    rw [hroot]
    exact List.cons_ne_nil _ _
  obtain ⟨dp,sys,hopen,ht',hstands⟩ := hff.opendir dir ht hne hslashes
  obtain ⟨s',hrun,rfl⟩ := fatfs_opendir_run hbuf dir CStr.root hopen
  exact ⟨dp,s',hrun,t.names,⟨t,_,ht',hstands,t.stored⟩,rfl⟩

theorem fatfs_listingExact (hff : ff.ReadsRoot root stands) :
    (fatfsDriver ff).ListingExact (fun _ s => (root s.sys).map fun t => t.names.map ShortName.text)
      (fun m s => (s.descs m).absPathStrBuff.length = FATFS_MAX_ABS_PATH_SIZE)
      (fun _ s => ∀ t,root s.sys = some t → ∀ n ∈ t.names,¬n.Blank) := by
  intro nullPtr zeroed sp s tcb dirp dirname relPath m ns hsel hroot hfs hnames hbuf
  obtain ⟨t,ht,rfl⟩ := Option.map_eq_some_iff.mp hnames
  have hopens := fatfsReader_opens hff ht hbuf
  have hcut : (t.names.map ShortName.text).map (List.take VFS_NAME_MAX) =
      t.names.map ShortName.text := by
    rw [List.map_map]
    refine List.map_congr_left fun n _ => List.take_of_length_le ?_
    exact n.text_length.trans (by decide)
  constructor
  · intro hexact t' ht' n hn hblank
    obtain rfl : t = t' := Option.some.inj (ht.symm.trans ht')
    obtain ⟨out,texts,hstored,hreads,hperm⟩ := hopens.of_listsExactly hsel hroot hfs hexact
    rw [hcut] at hperm
    -- as many records as names, but the blank name and those behind it are missing
    have hlen : (listedNames t.names).length = t.names.length := by
      rw [← hstored.length_eq,hreads.length_eq,hperm.length_eq,List.length_map]
    have hall := List.takeWhile_eq_self_iff.mp
      ((List.takeWhile_prefix _).eq_of_length hlen) n hn
    rw [ShortName.text_eq_nil.mpr hblank] at hall
    simp at hall
  · intro hgood
    have hall : listedNames t.names = t.names := by
      apply List.takeWhile_eq_self_iff.mpr
      intro n hn
      have htext : n.text ≠ [] := fun he => hgood t ht n hn (ShortName.text_eq_nil.mp he)
      simpa using htext
    rw [hall] at hopens
    refine hopens.listsExactly hsel hroot hfs ?_ hcut.symm
    intro n _ e hstored
    obtain ⟨e₀,-,rfl⟩ := hstored
    have hnul : ∀ c ∈ n.text,decide (c ≠ nul) := by
      intro c hc
      exact decide_eq_true ((n.text_graphic c hc).ne not_graphic_nul)
    have htext : (n.text ++ [nul]).takeWhile (· ≠ nul) = n.text := by
      rw [List.takeWhile_append_of_pos hnul]
      simp
    have hlen := n.text_length
    have hreads := @strncpy_reads e₀.name (n.text ++ [nul]) VFS_NAME_MAX
    rw [htext] at hreads
    exact hreads (lt_of_le_of_lt hlen (by decide)) 0

end FatfsReader

section Littlefs

variable {h : Host} {lf : LittleFs h.Mnt} {root : h.Mnt → lf.σ → Option Littlefs.RootChain}
  {stands : h.Mnt → lf.Dir → lf.σ → Littlefs.DirObj → Prop}

theorem littlefs_opendir_run {m : h.Mnt} {s : LfsState lf} {dir dir' : lf.Dir} {sys : lf.σ}
    (hopen : lf.dirOpen m dir CStr.root s.sys = ((Littlefs.LFS_ERR_OK,dir'),sys)) :
    ∃ s',(Littlefs.Driver.opendir m dir CStr.root).run LfsAct.exec s = some ((0,dir'),s') ∧
      s'.sys = sys := by
  have hexec : LfsAct.exec (.dirOpen m dir CStr.root) (Littlefs.Driver.held s m) =
      some ((Littlefs.LFS_ERR_OK,dir'),{ Littlefs.Driver.held s m with sys := sys }) := by
    simp [LfsAct.exec,LfsState.returned,Littlefs.Driver.held,LfsState.setDesc,hopen]
  exact ⟨_,Prog.run_map Littlefs.Driver.errno (Littlefs.Driver.act_run hexec),rfl⟩

theorem littlefs_readdir_run {m : h.Mnt} {s : LfsState lf} {dir dir' : lf.Dir} {ret : Int}
    {info : LfsInfo} {sys : lf.σ}
    (hread : lf.dirRead m dir s.stackInfo s.sys = (((ret,info),dir'),sys)) (hret : 0 ≤ ret)
    (entry : Dirent) :
    ∃ s',(Littlefs.Driver.readdir m dir entry).run LfsAct.exec s =
        some (((Littlefs.littlefsErrToErrno ret,
          ⟨info.type.toNat,strncpy entry.name info.name (VFS_NAME_MAX - 1)⟩),dir'),s') ∧
      s'.sys = sys := by
  have hexec : LfsAct.exec (.dirRead m dir s.stackInfo) (Littlefs.Driver.held s m) =
      some (((ret,info),dir'),{ Littlefs.Driver.held s m with sys := sys }) := by
    simp [LfsAct.exec,LfsState.returned,Littlefs.Driver.held,LfsState.setDesc,hread]
  have hinfo : LfsAct.exec .stackInfo (Littlefs.Driver.held s m) =
      some (s.stackInfo,Littlefs.Driver.held s m) := rfl
  let ans : (Int × Dirent) × lf.Dir :=
    ((ret,⟨info.type.toNat,strncpy entry.name info.name (VFS_NAME_MAX - 1)⟩),dir')
  refine ⟨{ s with sys := sys },Prog.run_map (fun ans => (Littlefs.Driver.errno ans.1,ans.2))
    (Littlefs.Driver.locked_run (m := m) (r := ans) ?_),rfl⟩
  simp only [Littlefs.Driver.act,Prog.act_bind,Prog.run_step hinfo,Prog.run_step hexec,
    ge_iff_le,hret,if_true]
  rfl

def littlefsReader (dno : h.Mnt → UInt8) (hlf : lf.ReadsRoot root stands) (m : h.Mnt) :
    Driver.DirReader (littlefsDriver lf dno) m LfsInfo where
  At infos dir s := ∃ t c,root m s.sys = some t ∧ stands m dir s.sys c ∧ infos = t.ahead c
  store e info := ⟨info.type.toNat,strncpy e.name info.name (VFS_NAME_MAX - 1)⟩
  atEnd := by
    intro dir s hat e
    obtain ⟨t,c,ht,hstands,hahead⟩ := hat
    obtain ⟨dir',sys,hread,-,-⟩ := hlf.dirRead s.stackInfo ht hstands
    rcases Littlefs.lfsDirRead_spec t c with ⟨hret,-⟩ | ⟨-,hsome⟩
    · obtain ⟨s',hrun,-⟩ := littlefs_readdir_run hread (le_of_eq hret.symm) e
      rw [hret] at hrun
      exact ⟨_,dir',s',hrun⟩
    · rw [← hahead] at hsome
      cases hsome
  atEntry := by
    intro info infos dir s hat e
    obtain ⟨t,c,ht,hstands,hahead⟩ := hat
    obtain ⟨dir',sys,hread,ht',hstands'⟩ := hlf.dirRead s.stackInfo ht hstands
    rcases Littlefs.lfsDirRead_spec t c with ⟨-,hnone⟩ | ⟨hret,hsome⟩
    · rw [← hahead] at hnone
      cases hnone
    · obtain ⟨s',hrun,rfl⟩ := littlefs_readdir_run hread (by rw [hret]; decide) e
      rw [hsome,List.cons.injEq] at hahead
      obtain ⟨rfl,rfl⟩ := hahead
      rw [hret] at hrun
      exact ⟨dir',s',hrun,t,_,ht',hstands',rfl⟩

theorem littlefs_listingExact (dno : h.Mnt → UInt8) (hlf : lf.ReadsRoot root stands) :
    (littlefsDriver lf dno).ListingExact
      (fun m s => (root m s.sys).map fun t => t.entries.map (·.name.takeWhile (· ≠ nul)))
      (fun _ _ => True) (fun _ _ => False) := by
  intro nullPtr zeroed sp s tcb dirp dirname relPath m ns hsel hroot hfs hnames _
  obtain ⟨t,ht,rfl⟩ := Option.map_eq_some_iff.mp hnames
  refine iff_false_intro fun hexact => ?_
  have hopens : (littlefsReader dno hlf m).Opens s.drv (t.ahead ⟨0,0,0⟩) := by
    intro dir
    obtain ⟨dir',sys,hopen,ht',hstands⟩ := hlf.dirOpen dir ht
    obtain ⟨s',hrun,rfl⟩ := littlefs_opendir_run hopen
    exact ⟨dir',s',hrun,t,_,ht',hstands,rfl⟩
  obtain ⟨out,texts,hstored,hreads,hperm⟩ := hopens.of_listsExactly hsel hroot hfs hexact
  -- there are two records more than names
  have hlen := hstored.length_eq.symm.trans (hreads.length_eq.trans hperm.length_eq)
  rw [t.ahead_start] at hlen
  simp at hlen
  omega

/-- Besides, a long name is no string when the record does not end in one. -/
theorem littlefs_longName (dno : h.Mnt → UInt8) (hlf : lf.ReadsRoot root stands) (m : h.Mnt)
    {info : LfsInfo} (hlong : VFS_NAME_MAX - 1 ≤ (info.name.takeWhile (· ≠ nul)).length)
    {e : Dirent} (he : nul ∉ e.name.drop (VFS_NAME_MAX - 1)) (name : List Char) :
    ¬((littlefsReader dno hlf m).store e info).Reads name :=
  strncpy_unterminated hlong he _ name

end Littlefs

section Spiffs

open Spiffs

variable {h : Host} {spf : SpiffsFs h.Mnt} {lookup : h.Mnt → spf.σ → Option Lookup}
  {stands : h.Mnt → spf.Dir → spf.σ → Spiffs.DirObj → Prop}

def spiffsReader (hsp : spf.ReadsRoot lookup stands) (m : h.Mnt) :
    Driver.DirReader (spiffsDriver spf) m SpiffsDirent where
  At es d s := ∃ t c,lookup m s.sys = some t ∧ stands m d s.sys c ∧ es = t.ahead s.stackDirent c
  store entry e := ⟨e.objId,strncpy entry.name (e.name.drop 1) VFS_NAME_MAX⟩
  atEnd := by
    intro d s hat entry
    obtain ⟨t,c,ht,hstands,hahead⟩ := hat
    rcases SPIFFS_readdir_spec t s.stackDirent c with ⟨hnone,-⟩ | ⟨e,c',-,hsome⟩
    · obtain ⟨e,d',sys,hread,herr⟩ := hsp.readdirEnd ht hstands hnone
      have hend : ¬Driver.SPIFFS_ERR_INTERNAL < SPIFFS_VIS_END := by decide
      refine ⟨entry,d',{ s with sys := sys },?_⟩
      simp [spiffsDriver,Spiffs.Driver.readdir,Spiffs.Driver.called,hread,herr,hend]
    · rw [← hahead] at hsome
      cases hsome
  atEntry := by
    intro e es d s hat entry
    obtain ⟨t,c,ht,hstands,hahead⟩ := hat
    rcases SPIFFS_readdir_spec t s.stackDirent c with ⟨-,hnone⟩ | ⟨e',c',hsome,hnext⟩
    · rw [← hahead] at hnone
      cases hnone
    · rw [hnext,List.cons.injEq] at hahead
      obtain ⟨rfl,rfl⟩ := hahead
      obtain ⟨d',sys,hread,ht',hstands'⟩ := hsp.readdirEntry ht hstands hsome
      refine ⟨d',{ s with sys := sys },?_,t,c',ht',hstands',rfl⟩
      simp [spiffsDriver,Spiffs.Driver.readdir,Spiffs.Driver.called,hread]

/-- A record is empty when the copied string is. -/
theorem Dirent.Reads.eq_nil_iff {ino n : ℕ} {dst src name : List Char} (hn : 0 < n)
    (h : (⟨ino,strncpy dst src n⟩ : Dirent).Reads name) :
    name = [] ↔ src.takeWhile (· ≠ nul) = [] := by
  rw [← h.2]
  obtain ⟨n,rfl⟩ := Nat.exists_eq_succ_of_ne_zero hn.ne'
  cases hsrc : src.takeWhile (· ≠ nul) with
  | nil =>
    simp only [strncpy,hsrc]
    simp [List.replicate_succ]
  | cons c cs =>
    have hc := List.all_eq_true.mp List.all_takeWhile c (by rw [hsrc]; exact List.mem_cons_self)
    simp only [strncpy,hsrc]
    simp [by simpa using hc]

theorem spiffs_listingExact (hsp : spf.ReadsRoot lookup stands) :
    (spiffsDriver spf).ListingExact
      (fun m s => (lookup m s.sys).map fun t => t.files.map FilePath.name) (fun _ _ => True)
      (fun m s => ∀ t,lookup m s.sys = some t → (∃ p ∈ t.files,p.path.chars = []) →
        s.stackDirent.text = []) := by
  intro nullPtr zeroed sp s tcb dirp dirname relPath m ns hsel hroot hfs hnames _
  obtain ⟨t,ht,rfl⟩ := Option.map_eq_some_iff.mp hnames
  have hopens : (spiffsReader hsp m).Opens s.drv (t.ahead s.drv.stackDirent ⟨0,0⟩) := by
    intro d
    obtain ⟨d',sys,hopen,ht',hstands⟩ := hsp.opendir CStr.root d ht
    refine ⟨d',{ s.drv with sys := sys },?_,t,_,ht',hstands,rfl⟩
    simp [spiffsDriver,Spiffs.Driver.opendir,Spiffs.Driver.called,hopen]
  have htexts := t.ahead_texts s.drv.stackDirent
  have hcut : (t.files.map FilePath.name).map (List.take VFS_NAME_MAX) =
      t.files.map FilePath.name := by
    rw [List.map_map]
    exact List.map_congr_left fun p _ => List.take_of_length_le p.name_length.le
  constructor
  · intro hexact t' ht' hempty
    obtain rfl : t = t' := Option.some.inj (ht.symm.trans ht')
    obtain ⟨p,hp,hpath⟩ := hempty
    obtain ⟨out,texts,hstored,hreads,hperm⟩ := hopens.of_listsExactly hsel hroot hfs hexact
    rw [hcut] at hperm
    by_contra hstack
    -- fewer empty names are reported than there are on the volume
    have hcount : texts.countP (· = []) =
        ((t.ahead s.drv.stackDirent ⟨0,0⟩).map SpiffsDirent.text).countP (· = []) := by
      rw [List.countP_map]
      refine countP_eq hstored hreads ?_
      rintro e b name ⟨e₀,-,rfl⟩ hname
      simpa [SpiffsDirent.text] using Dirent.Reads.eq_nil_iff (by decide) hname
    rw [htexts,hperm.countP_eq,List.countP_map,List.countP_map] at hcount
    refine absurd hcount (ne_of_gt (countP_lt ?_ hp ?_ ?_))
    · intro q hq
      by_cases hempty : q.path.chars = []
      · simp [q.name_eq_nil hempty]
      · simpa [hempty] using hq
    · simp [p.name_eq_nil hpath]
    · simpa [hpath] using hstack
  · intro hgood
    have hall : (t.ahead s.drv.stackDirent ⟨0,0⟩).map SpiffsDirent.text =
        t.files.map FilePath.name := by
      rw [htexts]
      apply List.map_congr_left
      intro p hp
      by_cases hpath : p.path.chars = []
      · rw [if_pos hpath,p.name_eq_nil hpath]
        exact hgood t ht ⟨p,hp,hpath⟩
      · rw [if_neg hpath]
    refine hopens.listsExactly hsel hroot hfs ?_ (hall.trans hcut.symm)
    intro e he entry hstored
    obtain ⟨e₀,-,rfl⟩ := hstored
    have hmem : e.text ∈ t.files.map FilePath.name := by
      rw [← hall]
      exact List.mem_map_of_mem he
    obtain ⟨p,-,hp⟩ := List.mem_map.mp hmem
    apply strncpy_reads
    show e.text.length < VFS_NAME_MAX
    rw [← hp]
    exact p.name_length

end Spiffs

/-- Listing a mount point gives exactly the entries of the root directory: on FatFs when no name
is blank, on littlefs never, on SPIFFS when no file has the path of the mount point itself or an
uninitialised record happens to be empty behind its first character. -/
theorem listing_exact {h : Host} {ff : FatFs h.Mnt} {fatRoot : ff.σ → Option RootTable}
    {fatStands : ff.Dir → ff.σ → DirPtr → Prop} (hff : ff.ReadsRoot fatRoot fatStands)
    {lf : LittleFs h.Mnt} (dno : h.Mnt → UInt8)
    {lfsRoot : h.Mnt → lf.σ → Option Littlefs.RootChain}
    {lfsStands : h.Mnt → lf.Dir → lf.σ → Littlefs.DirObj → Prop}
    (hlf : lf.ReadsRoot lfsRoot lfsStands) {sp : SpiffsFs h.Mnt}
    {lookup : h.Mnt → sp.σ → Option Spiffs.Lookup}
    {spStands : h.Mnt → sp.Dir → sp.σ → Spiffs.DirObj → Prop}
    (hsp : sp.ReadsRoot lookup spStands) :
    (fatfsDriver ff).ListingExact
      (fun _ s => (fatRoot s.sys).map fun t => t.names.map ShortName.text)
      (fun m s => (s.descs m).absPathStrBuff.length = FATFS_MAX_ABS_PATH_SIZE)
      (fun _ s => ∀ t,fatRoot s.sys = some t → ∀ n ∈ t.names,¬n.Blank) ∧
    (littlefsDriver lf dno).ListingExact
      (fun m s => (lfsRoot m s.sys).map fun t => t.entries.map (·.name.takeWhile (· ≠ nul)))
      (fun _ _ => True) (fun _ _ => False) ∧
    (spiffsDriver sp).ListingExact
      (fun m s => (lookup m s.sys).map fun t => t.files.map Spiffs.FilePath.name)
      (fun _ _ => True)
      (fun m s => ∀ t,lookup m s.sys = some t → (∃ p ∈ t.files,p.path.chars = []) →
        s.stackDirent.text = []) :=
  ⟨fatfs_listingExact hff,littlefs_listingExact dno hlf,spiffs_listingExact hsp⟩

section Demo

/-- A volume on which every directory is the root directory. -/
def tableFat (Mnt : Type) (t : RootTable) : FatFs Mnt :=
  { smallFat Mnt with
    Dir := DirPtr
    zeroDir := ⟨0,true⟩
    opendir := fun _ _ s => (.ok,⟨0,false⟩,s)
    readdir := fun dp s =>
      let (ans,dp) := fReaddir t.slots ⟨0,0,0,0,[]⟩ dp
      (ans,dp,s)
    closedir := fun dp s => (.ok,dp,s) }

theorem tableFat_readsRoot (Mnt : Type) (t : RootTable) :
    (tableFat Mnt t).ReadsRoot (fun _ => some t) (fun (dp : DirPtr) _ c => dp = c) where
  opendir := by
    intro s t' path dp ht _ _
    exact ⟨_,_,rfl,ht,rfl⟩
  readdir := by
    intro s t' dp c ht hstands
    cases ht
    cases hstands
    exact ⟨⟨0,0,0,0,[]⟩,_,_,rfl,rfl,rfl⟩

def chainLfs (Mnt : Type) (t : Littlefs.RootChain) : LittleFs Mnt :=
  { brokenLfs Mnt with
    Dir := Littlefs.DirObj
    dirOpen := fun _ _ _ s => ((Littlefs.LFS_ERR_OK,⟨0,0,0⟩),s)
    dirRead := fun _ dir _ s => (Littlefs.lfsDirRead t dir,s)
    dirClose := fun _ dir s => ((Littlefs.LFS_ERR_OK,dir),s) }

theorem chainLfs_readsRoot (Mnt : Type) (t : Littlefs.RootChain) :
    (chainLfs Mnt t).ReadsRoot (fun _ _ => some t)
      (fun _ (dir : Littlefs.DirObj) _ c => dir = c) where
  dirOpen := by
    intro m s t' dir ht
    exact ⟨_,_,rfl,ht,rfl⟩
  dirRead := by
    intro m s t' dir c info ht hstands
    cases ht
    cases hstands
    exact ⟨_,_,rfl,rfl,rfl⟩

def lookupSpiffs (Mnt : Type) (t : Spiffs.Lookup) : SpiffsFs Mnt :=
  { smallSpiffs Mnt with
    Dir := Spiffs.DirObj
    opendir := fun _ _ _ s => ((true,⟨0,0⟩),s)
    readdir := fun d e s =>
      match Spiffs.SPIFFS_readdir t.blocks e d with
      | some (e,d) => (((true,e),d),s)
      | none => (((false,e),d),s)
    errno := fun _ _ => Spiffs.SPIFFS_VIS_END
    closedir := fun _ s => (Spiffs.SPIFFS_OK,s) }

theorem lookupSpiffs_readsRoot (Mnt : Type) (t : Spiffs.Lookup) :
    (lookupSpiffs Mnt t).ReadsRoot (fun _ _ => some t)
      (fun _ (d : Spiffs.DirObj) _ c => d = c) where
  opendir := by
    intro m s t' path d ht
    exact ⟨_,_,rfl,ht,rfl⟩
  readdirEntry := by
    intro m s t' d c e e' c' ht hstands hread
    cases ht
    cases hstands
    exact ⟨c',s,by simp [lookupSpiffs,hread],rfl,rfl⟩
  readdirEnd := by
    intro m s t' d c e ht hstands hread
    cases ht
    cases hstands
    exact ⟨e,d,s,by simp [lookupSpiffs,hread],rfl⟩

/-- Made by creating "." and "a". -/
def blankTable : RootTable where
  slots := [⟨List.replicate 11 ' ',AM_ARC,0,0,0⟩,⟨'A' :: List.replicate 10 ' ',AM_ARC,0,0,0⟩,
    ⟨List.replicate 11 nul,0,0,0,0⟩]
  names := [⟨[],[],by decide,by decide,by simp,by simp⟩,
    ⟨['A'],[],by decide,by decide,by simp [Graphic],by simp⟩]
  stored := by decide

def smallChain : Littlefs.RootChain where
  pairs := [[none,some ⟨LFS_TYPE_REG,0,['a']⟩]]
  split_nonempty := by decide

/-- Made by creating the mount point, with a record that holds the name of another file. -/
def unnamedLookup : Spiffs.Lookup where
  blocks := [[⟨2 ^ 31 + 1,0,0xF8,[nul]⟩]]
  files := [⟨⟨[],by decide⟩,by decide,Or.inl rfl⟩]
  stored := by decide

theorem listing_exact_small :
    (fatfsDriver (tableFat smallHost.Mnt blankTable)).ListingExact
      (fun _ _ => some (blankTable.names.map ShortName.text))
      (fun m s => (s.descs m).absPathStrBuff.length = FATFS_MAX_ABS_PATH_SIZE)
      (fun _ _ => ∀ t,some blankTable = some t → ∀ n ∈ t.names,¬n.Blank) ∧
    (littlefsDriver (chainLfs smallHost.Mnt smallChain) fun _ => 0).ListingExact
      (fun _ _ => some (smallChain.entries.map (·.name.takeWhile (· ≠ nul))))
      (fun _ _ => True) (fun _ _ => False) ∧
    (spiffsDriver (lookupSpiffs smallHost.Mnt unnamedLookup)).ListingExact
      (fun _ _ => some (unnamedLookup.files.map Spiffs.FilePath.name)) (fun _ _ => True)
      (fun _ s => ∀ t,some unnamedLookup = some t → (∃ p ∈ t.files,p.path.chars = []) →
        s.stackDirent.text = []) :=
  listing_exact (tableFat_readsRoot _ blankTable) (fun _ => 0) (chainLfs_readsRoot _ smallChain)
    (lookupSpiffs_readsRoot _ unnamedLookup)

/-- The driver is mounted on "/". -/
def mountedOnRoot {File Dir Drv : Type} (d : Driver smallHost.Mnt File Dir Drv)
    (zeroed : File × Dir) (drv : Drv) :
    State (Driver.World smallHost (id : File × Dir → File × Dir) zeroed Drv) where
  mounts _ := ⟨some (d.fileSystem ⟨fun _ => false,zeroed,id⟩),some CStr.root,1,0⟩
  mountsList := ⟨some (),fun _ => some ()⟩
  files _ := ⟨none,none,0,0,none,zeroed⟩
  dirs _ := ⟨none,none,zeroed⟩
  drv := drv
  mountMutex := 0
  openMutex := 0
  calls := []

/-- The first entry of "/". -/
def firstEntry {W : World} (dirp : W.Dir) (entry : Dirent) : VProg W (Int × Int × Option Dirent) := do
  let res ← vfsOpendir (some dirp) (some CStr.root)
  let (res',entry) ← vfsReaddir (some dirp) (some entry)
  pure (res,res',entry)

/-- littlefs reports a "." that is not there, FatFs nothing in front of "A", and SPIFFS a name
from the stack. -/
theorem listing_of_nothing :
    smallChain.entries.map LfsInfo.name = [['a']] ∧
    ((firstEntry () ⟨7,List.replicate 32 'x'⟩).run (Action.exec ())
      (mountedOnRoot (littlefsDriver (chainLfs smallHost.Mnt smallChain) fun _ => 0) ((),⟨0,0,0⟩)
        ⟨fun _ => ⟨⟨0,0,0,0,0,0,0⟩,none,0,0,0⟩,(),⟨0,0,[]⟩⟩)).map Prod.fst =
      some (0,1,some ⟨2,'.' :: List.replicate 29 nul ++ ['x','x']⟩) ∧
    createName ['.'] = some (List.replicate 11 ' ') ∧
    blankTable.names.map ShortName.text = [[],['A']] ∧
    ((firstEntry () ⟨7,List.replicate 32 'x'⟩).run (Action.exec ())
      (mountedOnRoot (fatfsDriver (tableFat smallHost.Mnt blankTable)) (⟨false,[]⟩,⟨0,true⟩)
        ⟨fun _ => ⟨0,0,List.replicate FATFS_MAX_ABS_PATH_SIZE nul⟩,0,(0 : ℕ),[]⟩)).map Prod.fst =
      some (0,0,some ⟨7,List.replicate 32 'x'⟩) ∧
    unnamedLookup.files.map Spiffs.FilePath.name = [[]] ∧
    ((firstEntry () ⟨7,List.replicate 32 'x'⟩).run (Action.exec ())
      (mountedOnRoot (spiffsDriver (lookupSpiffs smallHost.Mnt unnamedLookup)) (0,⟨0,0⟩)
        ⟨fun _ => 0,(0 : ℕ),⟨0,0⟩,⟨0,['/','o','l','d',nul]⟩⟩)).map Prod.fst =
      some (0,1,some ⟨1,['o','l','d'] ++ List.replicate 28 nul ++ ['x']⟩) := by
  refine ⟨by decide,?_,by decide,by decide,?_,by decide,?_⟩
  · decide
  · decide
  · decide

end Demo

end UcVfs
