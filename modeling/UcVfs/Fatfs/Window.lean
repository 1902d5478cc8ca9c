import UcVfs.Devices.Callbacks
import UcVfs.Fatfs.Api
import UcVfs.Framework.LittleEndian

/-!
# The disk access window

`sync_window` and `move_window` of `ff.c` over `diskio.c` and the RAM disk. One sector of the volume
is held in the window, and what it shows of the disk is what was last written, whether that has
reached the disk or not.
-/

namespace UcVfs.Fatfs

open Framework

/-- The sectors of the RAM disk. -/
def nSects : ℕ := 1024

inductive FsType
  | fat12
  | fat16
  | fat32
  deriving DecidableEq

/-- How many bytes of the FAT a number of entries takes. -/
def FsType.szbfat : FsType → ℕ → ℕ
  | fat12,n => n * 3 / 2 + n % 2
  | fat16,n => n * 2
  | fat32,n => n * 4

/-- `MAX_FAT12`, `MAX_FAT16` and `MAX_FAT32`. -/
def FsType.maxFat : FsType → ℕ
  | fat12 => 0xFF5
  | fat16 => 0xFFF5
  | fat32 => 0x0FFFFFF5

/-- The members of `FATFS` that a mount sets, as far as clusters are concerned: the copies of the
FAT and after them the clusters, all on the disk. -/
structure Geometry where
  fsType : FsType
  nFats : ℕ
  csizeLog : ℕ
  nFatent : ℕ
  fsize : ℕ
  fatbase : ℕ
  database : ℕ
  fatsOk : nFats = 1 ∨ nFats = 2
  entriesOk : 2 < nFatent ∧ nFatent ≤ fsType.maxFat + 2
  fsizeOk : fsType.szbfat nFatent ≤ fsize * SS
  fatsFit : fatbase + nFats * fsize ≤ database
  dataFits : database + (nFatent - 2) * 2 ^ csizeLog ≤ nSects

/-- The other members of `FATFS`, with the disk behind `pdrv`. -/
structure FATFS where
  wflag : Bool
  fsiFlag : ℕ
  lastClst : ℕ
  freeClst : ℕ
  winsect : ℕ
  win : Mem
  disk : Mem

namespace FATFS

/-- `disk_read` of sectors. -/
def read (fs : FATFS) (buff : Mem) (sect count : ℕ) : DResult × Mem :=
  let (res,buff') := diskRead (some fs.disk) buff (UInt32.ofNat sect) (UInt32.ofNat count)
  (res,buff'.getD buff)

/-- `disk_write` of sectors. -/
def write (fs : FATFS) (buff : Mem) (sect count : ℕ) : DResult × FATFS :=
  let (res,disk) := diskWrite (some fs.disk) buff (UInt32.ofNat sect) (UInt32.ofNat count)
  (res,{ fs with disk := disk.getD fs.disk })

variable (g : Geometry)

def syncWindow (fs : FATFS) : FResult × FATFS :=
  if fs.wflag then
    match fs.write fs.win fs.winsect 1 with
    | (.ok,fs) =>
      let fs := { fs with wflag := false }
      -- is it in the 1st FAT? (the difference is an unsigned number)
      if g.fatbase ≤ fs.winsect ∧ fs.winsect - g.fatbase < g.fsize then
        if g.nFats = 2 then (.ok,(fs.write fs.win (fs.winsect + g.fsize) 1).2) else (.ok,fs)
      else (.ok,fs)
    | (.error,fs) => (.diskErr,fs)
  else (.ok,fs)

def moveWindow (sect : ℕ) (fs : FATFS) : FResult × FATFS :=
  if sect ≠ fs.winsect then
    let (res,fs) := fs.syncWindow g
    if res = .ok then
      match fs.read fs.win sect 1 with
      | (.ok,win) => (.ok,{ fs with win := win, winsect := sect })
      -- the window is invalid
      | (.error,win) => (.diskErr,{ fs with win := win, winsect := 0xFFFFFFFF })
    else (res,fs)
  else (.ok,fs)

/-- The volume as the window shows it. -/
def view (fs : FATFS) : Mem := fun a =>
  if fs.winsect * SS ≤ a ∧ a < fs.winsect * SS + SS then fs.win (a - fs.winsect * SS) else fs.disk a

/-- The window shows a sector of the disk, and the same bytes until it is written to. -/
structure Coherent (fs : FATFS) : Prop where
  inside : fs.winsect < nSects
  clean : fs.wflag = false → ∀ i < SS,fs.win i = fs.disk (fs.winsect * SS + i)

end FATFS

/-- The second copy of the FAT. -/
def Geometry.InMirror (g : Geometry) (a : ℕ) : Prop :=
  g.nFats = 2 ∧ (g.fatbase + g.fsize) * SS ≤ a ∧ a < (g.fatbase + 2 * g.fsize) * SS

/-- On the disk the second FAT is a copy of the first one, and no write to it is pending. -/
structure Mirrored (g : Geometry) (fs : FATFS) : Prop where
  pending : fs.wflag = true → ¬g.InMirror (fs.winsect * SS)
  copies : g.nFats = 2 → ∀ d < g.fsize * SS,
    fs.disk ((g.fatbase + g.fsize) * SS + d) = fs.disk (g.fatbase * SS + d)

/-- A sector of the first FAT. -/
def Geometry.InFat (g : Geometry) (sect : ℕ) : Prop :=
  g.fatbase ≤ sect ∧ sect < g.fatbase + g.fsize

/-- The window shows these bytes now, those of the second FAT apart. The account of the clusters is
what it was, and the second FAT is still a copy. -/
structure Shows (g : Geometry) (m : Mem) (fs fs' : FATFS) : Prop where
  coherent : fs'.Coherent
  view : ∀ a < nSects * SS,¬g.InMirror a → fs'.view a = m a
  mirrored : Mirrored g fs → Mirrored g fs'
  lastClst : fs'.lastClst = fs.lastClst
  freeClst : fs'.freeClst = fs.freeClst

/-- What no move of the window changes. No write is pending that was not before. -/
structure Kept (g : Geometry) (fs fs' : FATFS) : Prop extends Shows g fs.view fs fs' where
  quiet : fs'.wflag = true → fs.wflag = true

section Disk

variable {buff : Mem} {sect count : ℕ}

theorem sectors_range (hcount : 0 < count) (hfit : sect + count ≤ nSects) :
    ∃ start : UInt32,UInt32.ofNat count * CONFIG_RAM_SEC_SIZE ≠ 0 ∧
      (UInt32.ofNat count * CONFIG_RAM_SEC_SIZE).toNat = count * SS ∧ start.toNat = sect * SS ∧
      secRange (UInt32.ofNat sect) 0 (UInt32.ofNat count * CONFIG_RAM_SEC_SIZE) = .ok start := by
  unfold nSects at hfit
  have hsmall : (UInt32.ofNat sect).toNat = sect := by
    rw [UInt32.toNat_ofNat']
    exact Nat.mod_eq_of_lt (by omega)
  have hsize : (UInt32.ofNat count * CONFIG_RAM_SEC_SIZE).toNat = count * SS := by
    have hmod : count % 2 ^ 32 % 2 ^ 23 = count := by omega
    rw [DeviceCall.sectors_toNat,UInt32.toNat_ofNat',hmod]
    rfl
  have hsz : UInt32.ofNat count * CONFIG_RAM_SEC_SIZE ≠ 0 := by
    intro h
    have hzero := congrArg UInt32.toNat h
    rw [hsize] at hzero
    have hpos : 0 < count * SS := Nat.mul_pos hcount (by decide)
    exact absurd hzero (Nat.ne_of_gt hpos)
  have hchecks := @DeviceCall.sectors_checks (UInt32.ofNat sect) (UInt32.ofNat count) hsz
  rw [hsmall,hsize] at hchecks
  have hin : InDisk (sect * SS) (count * SS) := by
    show sect * 512 + count * 512 ≤ 524288
    omega
  rcases hchecks with ⟨-,start,hstart,hrange⟩ | ⟨hout,-⟩
  · exact ⟨start,hsz,hsize,hstart,hrange⟩
  · exact absurd hin hout

theorem FATFS.read_sectors (hcount : 0 < count) (hfit : sect + count ≤ nSects) (fs : FATFS)
    (buff : Mem) :
    fs.read buff sect count = (.ok,memcpy buff 0 fs.disk (sect * SS) (count * SS)) := by
  obtain ⟨start,hsz,hsize,hstart,hrange⟩ := sectors_range hcount hfit
  have hok : ¬((count * SS : ℕ) : Int) < 0 := by omega
  simp only [FATFS.read,diskRead,ramdiskRead,transfer,hrange,if_neg hsz,hsize,hstart,if_neg hok]
  rfl

theorem FATFS.write_sectors (hcount : 0 < count) (hfit : sect + count ≤ nSects) (fs : FATFS)
    (buff : Mem) :
    fs.write buff sect count =
      (.ok,{ fs with disk := memcpy fs.disk (sect * SS) buff 0 (count * SS) }) := by
  obtain ⟨start,hsz,hsize,hstart,hrange⟩ := sectors_range hcount hfit
  have hok : ¬((count * SS : ℕ) : Int) < 0 := by omega
  simp only [FATFS.write,diskWrite,ramdiskWrite,transfer,hrange,if_neg hsz,hsize,hstart,if_neg hok]
  rfl

theorem FATFS.read_sector (hsect : sect < nSects) (fs : FATFS) (buff : Mem) :
    fs.read buff sect 1 = (.ok,memcpy buff 0 fs.disk (sect * SS) SS) := by
  rw [FATFS.read_sectors Nat.one_pos hsect,Nat.one_mul]

theorem FATFS.write_sector (hsect : sect < nSects) (fs : FATFS) (buff : Mem) :
    fs.write buff sect 1 = (.ok,{ fs with disk := memcpy fs.disk (sect * SS) buff 0 SS }) := by
  rw [FATFS.write_sectors Nat.one_pos hsect,Nat.one_mul]

end Disk

section Window

variable {g : Geometry} {fs : FATFS}

/-- What is written to the second FAT is in the second FAT. -/
theorem mirror_inside {sect : ℕ} (hlo : g.fatbase ≤ sect) (hhi : sect - g.fatbase < g.fsize)
    (hfats : g.nFats = 2) :
    sect + g.fsize < nSects ∧ ∀ a,(sect + g.fsize) * SS ≤ a → a < (sect + g.fsize) * SS + SS →
      g.InMirror a := by
  have hfit := g.fatsFit
  have hdata := g.dataFits
  have hentries := g.entriesOk.1
  rw [hfats] at hfit
  have hclusters : 0 < (g.nFatent - 2) * 2 ^ g.csizeLog :=
    Nat.mul_pos (by omega) (Nat.two_pow_pos _)
  have hlow : (g.fatbase + g.fsize) * SS ≤ (sect + g.fsize) * SS := Nat.mul_le_mul_right SS (by omega)
  have hhigh : (sect + g.fsize + 1) * SS ≤ (g.fatbase + 2 * g.fsize) * SS :=
    Nat.mul_le_mul_right SS (by omega)
  rw [Nat.succ_mul] at hhigh
  exact ⟨by omega,fun a ha ha' => ⟨hfats,hlow.trans ha,ha'.trans_le hhigh⟩⟩

/-- What is written to the first FAT is written to the second one. -/
theorem mirror_copies {disk : Mem} {sect : ℕ} (win : Mem) (hlo : g.fatbase ≤ sect)
    (hcopies : ∀ d < g.fsize * SS,
      disk ((g.fatbase + g.fsize) * SS + d) = disk (g.fatbase * SS + d))
    (hhi : sect - g.fatbase < g.fsize) {d : ℕ} (hd : d < g.fsize * SS) :
    memcpy (memcpy disk (sect * SS) win 0 SS) ((sect + g.fsize) * SS) win 0 SS
        ((g.fatbase + g.fsize) * SS + d) =
      memcpy (memcpy disk (sect * SS) win 0 SS) ((sect + g.fsize) * SS) win 0 SS
        (g.fatbase * SS + d) := by
  obtain ⟨k,rfl⟩ := Nat.exists_eq_add_of_le hlo
  have hk : (k + 1) * SS ≤ g.fsize * SS := Nat.mul_le_mul_right SS (by omega)
  have hpos : 0 < SS := by decide
  simp only [Nat.add_mul,Nat.one_mul] at hcopies hk ⊢
  by_cases hin : k * SS ≤ d ∧ d < k * SS + SS
  · obtain ⟨i,rfl⟩ := Nat.exists_eq_add_of_le hin.1
    have hi : i < SS := by omega
    have hplace : g.fatbase * SS + g.fsize * SS + (k * SS + i) =
        g.fatbase * SS + k * SS + g.fsize * SS + i := by omega
    have hplace' : g.fatbase * SS + (k * SS + i) = g.fatbase * SS + k * SS + i := by omega
    rw [hplace,memcpy_inside hi,hplace',memcpy_outside (by omega),memcpy_inside hi]
  · rw [memcpy_outside (by omega),memcpy_outside (by omega),memcpy_outside (by omega),
      memcpy_outside (by omega),hcopies d hd]

theorem syncWindow_spec (hfs : fs.Coherent) :
    ∃ fs',fs.syncWindow g = (.ok,fs') ∧ Kept g fs fs' ∧ fs'.wflag = false ∧
      fs'.winsect = fs.winsect := by
  rw [FATFS.syncWindow]
  cases hflag : fs.wflag with
  | false =>
    exact ⟨fs,if_neg Bool.false_ne_true,
      ⟨⟨hfs,fun _ _ _ => rfl,fun h => h,rfl,rfl⟩,fun h => h⟩,hflag,rfl⟩
  | true =>
    rw [if_pos rfl,FATFS.write_sector hfs.inside]
    -- the sector of the window is on the disk now, as it was shown
    have hshown : ∀ {fs' : FATFS},fs'.winsect = fs.winsect → fs'.win = fs.win →
        (∀ a,a < fs.winsect * SS ∨ fs.winsect * SS + SS ≤ a → ¬g.InMirror a →
          fs'.disk a = fs.disk a) →
        ∀ a < nSects * SS,¬g.InMirror a → fs'.view a = fs.view a := by
      intro fs' hsect hwin hdisk a _ hmirror
      rw [FATFS.view,FATFS.view,hsect,hwin]
      by_cases hin : fs.winsect * SS ≤ a ∧ a < fs.winsect * SS + SS
      · rw [if_pos hin,if_pos hin]
      · rw [if_neg hin,if_neg hin]
        exact hdisk a (by omega) hmirror
    have hwritten : ∀ i < SS,memcpy fs.disk (fs.winsect * SS) fs.win 0 SS (fs.winsect * SS + i) =
        fs.win i := by
      intro i hi
      rw [memcpy_inside hi,Nat.zero_add]
    by_cases hfat : g.fatbase ≤ fs.winsect ∧ fs.winsect - g.fatbase < g.fsize
    · by_cases hfats : g.nFats = 2
      · obtain ⟨hsect,hmirror⟩ := mirror_inside hfat.1 hfat.2 hfats
        simp only [if_pos hfat,if_pos hfats]
        rw [FATFS.write_sector hsect]
        refine ⟨_,rfl,⟨⟨⟨hfs.inside,fun _ i hi => ?_⟩,hshown rfl rfl ?_,fun h => ?_,rfl,rfl⟩,
          fun _ => hflag⟩,rfl,rfl⟩
        · show fs.win i = memcpy _ ((fs.winsect + g.fsize) * SS) fs.win 0 SS (fs.winsect * SS + i)
          rw [memcpy_outside (by unfold SS at *; omega)]
          exact (hwritten i hi).symm
        · intro a hout hno
          show memcpy _ ((fs.winsect + g.fsize) * SS) fs.win 0 SS a = fs.disk a
          have hout' : a < (fs.winsect + g.fsize) * SS ∨ (fs.winsect + g.fsize) * SS + SS ≤ a := by
            by_contra hin
            exact hno (hmirror a (by omega) (by omega))
          rw [memcpy_outside hout']
          exact memcpy_outside hout
        · exact ⟨fun hdirty => absurd hdirty Bool.false_ne_true,fun _ d hd =>
            mirror_copies fs.win hfat.1 (h.copies hfats) hfat.2 hd⟩
      · simp only [if_pos hfat,if_neg hfats]
        exact ⟨_,rfl,⟨⟨⟨hfs.inside,fun _ i hi => (hwritten i hi).symm⟩,
          hshown rfl rfl fun a hout _ => memcpy_outside hout,
          fun _ => ⟨fun hdirty => absurd hdirty Bool.false_ne_true,fun h => absurd h hfats⟩,
          rfl,rfl⟩,fun _ => hflag⟩,rfl,rfl⟩
    · simp only [if_neg hfat]
      refine ⟨_,rfl,⟨⟨⟨hfs.inside,fun _ i hi => (hwritten i hi).symm⟩,
        hshown rfl rfl fun a hout _ => memcpy_outside hout,fun h => ?_,rfl,rfl⟩,fun _ => hflag⟩,rfl,
        rfl⟩
      refine ⟨fun hdirty => absurd hdirty Bool.false_ne_true,fun hfats d hd => ?_⟩
      -- the sector is in neither of the copies
      have hno := h.pending hflag
      have hout : fs.winsect < g.fatbase ∨ g.fatbase + 2 * g.fsize ≤ fs.winsect := by
        by_contra hin
        have hlow : (g.fatbase + g.fsize) * SS ≤ fs.winsect * SS :=
          Nat.mul_le_mul_right SS (by omega)
        have hhigh : (fs.winsect + 1) * SS ≤ (g.fatbase + 2 * g.fsize) * SS :=
          Nat.mul_le_mul_right SS (by omega)
        rw [Nat.succ_mul] at hhigh
        have hpos : 0 < SS := by decide
        exact hno ⟨hfats,hlow,by omega⟩
      have haway : ∀ a,g.fatbase * SS ≤ a → a < (g.fatbase + 2 * g.fsize) * SS →
          a < fs.winsect * SS ∨ fs.winsect * SS + SS ≤ a := by
        intro a hlo hhi
        rcases hout with hbefore | hbehind
        · have hle : (fs.winsect + 1) * SS ≤ g.fatbase * SS := Nat.mul_le_mul_right SS hbefore
          rw [Nat.succ_mul] at hle
          omega
        · have hle : (g.fatbase + 2 * g.fsize) * SS ≤ fs.winsect * SS :=
            Nat.mul_le_mul_right SS hbehind
          omega
      have hcopies := h.copies hfats d hd
      simp only [Nat.add_mul,Nat.two_mul] at haway hcopies ⊢
      show memcpy fs.disk (fs.winsect * SS) fs.win 0 SS _ = memcpy fs.disk (fs.winsect * SS) fs.win 0 SS _
      rw [memcpy_outside (haway _ (by omega) (by omega)),
        memcpy_outside (haway _ (by omega) (by omega)),hcopies]

theorem Kept.refl (hfs : fs.Coherent) : Kept g fs fs :=
  ⟨⟨hfs,fun _ _ _ => rfl,fun h => h,rfl,rfl⟩,fun h => h⟩

theorem Shows.trans {m : Mem} {fs' fs'' : FATFS} (h : Shows g m fs fs') (h' : Kept g fs' fs'') :
    Shows g m fs fs'' := by
  exact ⟨h'.coherent,fun a ha hno => (h'.view a ha hno).trans (h.view a ha hno),
    fun hm => h'.mirrored (h.mirrored hm),h'.lastClst.trans h.lastClst,
    h'.freeClst.trans h.freeClst⟩

theorem Kept.trans {fs' fs'' : FATFS} (h : Kept g fs fs') (h' : Kept g fs' fs'') : Kept g fs fs'' :=
  ⟨h.toShows.trans h',fun hdirty => h.quiet (h'.quiet hdirty)⟩

/-- A clean window shows the disk. -/
theorem FATFS.Coherent.view_clean (hfs : fs.Coherent) (hflag : fs.wflag = false) : fs.view = fs.disk := by
  funext a
  rw [FATFS.view]
  by_cases hin : fs.winsect * SS ≤ a ∧ a < fs.winsect * SS + SS
  · have hlt : a - fs.winsect * SS < SS := by omega
    rw [if_pos hin,hfs.clean hflag _ hlt]
    congr 1
    omega
  · rw [if_neg hin]

/-- What the window holds is what it shows. -/
theorem FATFS.win_eq_view (fs : FATFS) {off : ℕ} (hoff : off < SS) :
    fs.win off = fs.view (fs.winsect * SS + off) := by
  have hin : fs.winsect * SS ≤ fs.winsect * SS + off ∧
      fs.winsect * SS + off < fs.winsect * SS + SS := by omega
  rw [FATFS.view,if_pos hin,Nat.add_sub_cancel_left]

theorem FATFS.load_win (fs : FATFS) {off n : ℕ} (hoff : off + n ≤ SS) :
    loadLE fs.win off n = loadLE fs.view (fs.winsect * SS + off) n := by
  apply loadLE_congr
  intro i hi
  rw [fs.win_eq_view (by omega),Nat.add_assoc]

/-- A write to the window. -/
def FATFS.put (fs : FATFS) (win : Mem) : FATFS := { fs with win := win, wflag := true }

@[simp] theorem FATFS.put_winsect (fs : FATFS) (win : Mem) : (fs.put win).winsect = fs.winsect := rfl

@[simp] theorem FATFS.put_win (fs : FATFS) (win : Mem) : (fs.put win).win = win := rfl

theorem FATFS.Coherent.put (hfs : fs.Coherent) (win : Mem) : (fs.put win).Coherent :=
  ⟨hfs.inside,fun hflag => absurd hflag.symm Bool.false_ne_true⟩

/-- The bytes that are written are seen, and the others are as before. -/
theorem FATFS.view_put (fs : FATFS) {win : Mem} {off n : ℕ} (hoff : off + n ≤ SS)
    (hwin : ∀ i,i < off ∨ off + n ≤ i → win i = fs.win i) (a : ℕ) :
    (fs.put win).view a =
      if fs.winsect * SS + off ≤ a ∧ a < fs.winsect * SS + off + n then
        win (a - fs.winsect * SS)
      else fs.view a := by
  rw [FATFS.view,FATFS.view,FATFS.put_winsect,FATFS.put_win]
  by_cases hin : fs.winsect * SS ≤ a ∧ a < fs.winsect * SS + SS
  · rw [if_pos hin,if_pos hin]
    by_cases hat : fs.winsect * SS + off ≤ a ∧ a < fs.winsect * SS + off + n
    · rw [if_pos hat]
    · rw [if_neg hat]
      exact hwin _ (by omega)
  · rw [if_neg hin,if_neg hin,if_neg (by omega)]
    rfl

/-- The window can be moved to any sector of the disk, and shows what it showed. -/
theorem moveWindow_spec (hfs : fs.Coherent) {sect : ℕ} (hsect : sect < nSects) :
    ∃ fs',fs.moveWindow g sect = (.ok,fs') ∧ Kept g fs fs' ∧ fs'.winsect = sect := by
  rw [FATFS.moveWindow]
  by_cases hsame : sect ≠ fs.winsect
  · obtain ⟨fs₁,hsync,hkept,hclean,hat⟩ := syncWindow_spec (g := g) hfs
    rw [if_pos hsame,hsync]
    simp only [if_true]
    rw [FATFS.read_sector hsect]
    have hread : ∀ i < SS,memcpy fs₁.win 0 fs₁.disk (sect * SS) SS i = fs₁.disk (sect * SS + i) := by
      intro i hi
      have hcopied := @memcpy_inside fs₁.win fs₁.disk 0 (sect * SS) SS i hi
      rwa [Nat.zero_add] at hcopied
    have hcoherent : FATFS.Coherent { fs₁ with
        win := memcpy fs₁.win 0 fs₁.disk (sect * SS) SS, winsect := sect } :=
      ⟨hsect,fun _ => hread⟩
    have hview := hcoherent.view_clean hclean
    have hdry : ∀ {P : Prop},fs₁.wflag = true → P := fun h =>
      absurd (hclean.symm.trans h) Bool.false_ne_true
    refine ⟨_,rfl,hkept.trans ⟨⟨hcoherent,fun a _ _ => ?_,fun h => ⟨hdry,h.copies⟩,rfl,rfl⟩,hdry⟩,rfl⟩
    rw [hview,hkept.coherent.view_clean hclean]
  · exact ⟨fs,if_neg hsame,Kept.refl hfs,(not_not.mp hsame).symm⟩

end Window

end UcVfs.Fatfs
