import UcVfs.Fatfs.Window

/-!
# The entries of the FAT

`get_fat` and `put_fat` of `ff.c` for the three widths of entries. Through the window the FAT is a
table of numbers: an entry that was put is the one that is got, and no other entry changes.
-/

namespace UcVfs.Fatfs

open Framework

/-- `ld_word`. -/
def ldWord (m : Mem) (p : ℕ) : ℕ := (m (p + 1)).toNat <<< 8 ||| (m p).toNat

/-- `ld_dword`. -/
def ldDword (m : Mem) (p : ℕ) : ℕ :=
  (((m (p + 3)).toNat <<< 8 ||| (m (p + 2)).toNat) <<< 8 ||| (m (p + 1)).toNat) <<< 8 ||| (m p).toNat

/-- `st_word`. -/
def stWord (m : Mem) (p val : ℕ) : Mem := storeLE m p val 2

/-- `st_dword`. -/
def stDword (m : Mem) (p val : ℕ) : Mem := storeLE m p val 4

namespace FATFS

variable (g : Geometry)

def getFat (clst : ℕ) (fs : FATFS) : ℕ × FATFS :=
  if clst < 2 ∨ clst ≥ g.nFatent then (1,fs)
  else
    match g.fsType with
    | .fat12 =>
      let bc := clst + clst / 2
      match fs.moveWindow g (g.fatbase + bc / SS) with
      | (.ok,fs) =>
        let wc := (fs.win (bc % SS)).toNat
        match fs.moveWindow g (g.fatbase + (bc + 1) / SS) with
        | (.ok,fs) =>
          let wc := wc ||| (fs.win ((bc + 1) % SS)).toNat <<< 8
          (if clst &&& 1 ≠ 0 then wc >>> 4 else wc &&& 0xFFF,fs)
        | (_,fs) => (0xFFFFFFFF,fs)
      | (_,fs) => (0xFFFFFFFF,fs)
    | .fat16 =>
      match fs.moveWindow g (g.fatbase + clst / (SS / 2)) with
      | (.ok,fs) => (ldWord fs.win (clst * 2 % SS),fs)
      | (_,fs) => (0xFFFFFFFF,fs)
    | .fat32 =>
      match fs.moveWindow g (g.fatbase + clst / (SS / 4)) with
      | (.ok,fs) => (ldDword fs.win (clst * 4 % SS) &&& 0x0FFFFFFF,fs)
      | (_,fs) => (0xFFFFFFFF,fs)

/-- The first byte of a 12-bit entry. -/
def firstByte (clst val : ℕ) (p : UInt8) : UInt8 :=
  if clst &&& 1 ≠ 0 then UInt8.ofNat (p.toNat &&& 0x0F ||| (val % 256) <<< 4) else UInt8.ofNat val

/-- The second one. -/
def secondByte (clst val : ℕ) (p : UInt8) : UInt8 :=
  if clst &&& 1 ≠ 0 then UInt8.ofNat (val >>> 4)
  else UInt8.ofNat (p.toNat &&& 0xF0 ||| (val >>> 8) % 256 &&& 0x0F)

def putFat (clst val : ℕ) (fs : FATFS) : FResult × FATFS :=
  if clst ≥ 2 ∧ clst < g.nFatent then
    match g.fsType with
    | .fat12 =>
      let bc := clst + clst / 2
      match fs.moveWindow g (g.fatbase + bc / SS) with
      | (.ok,fs) =>
        let p := bc % SS
        let fs := fs.put (Function.update fs.win p (firstByte clst val (fs.win p)))
        match fs.moveWindow g (g.fatbase + (bc + 1) / SS) with
        | (.ok,fs) =>
          let p := (bc + 1) % SS
          (.ok,fs.put (Function.update fs.win p (secondByte clst val (fs.win p))))
        | (res,fs) => (res,fs)
      | (res,fs) => (res,fs)
    | .fat16 =>
      match fs.moveWindow g (g.fatbase + clst / (SS / 2)) with
      | (.ok,fs) =>
        (.ok,fs.put (stWord fs.win (clst * 2 % SS) (val % 2 ^ 16)))
      | (res,fs) => (res,fs)
    | .fat32 =>
      match fs.moveWindow g (g.fatbase + clst / (SS / 4)) with
      | (.ok,fs) =>
        let val := val &&& 0x0FFFFFFF ||| ldDword fs.win (clst * 4 % SS) &&& 0xF0000000
        (.ok,fs.put (stDword fs.win (clst * 4 % SS) val))
      | (res,fs) => (res,fs)
  else (.intErr,fs)

end FATFS

/-- How many bits of an entry tell the cluster. -/
def FsType.bits : FsType → ℕ
  | fat12 => 12
  | fat16 => 16
  | fat32 => 28

/-- Where an entry begins, how many bytes it has a part in, and the number in it. -/
def Geometry.entryAt (g : Geometry) (clst : ℕ) : ℕ :=
  g.fatbase * SS +
    match g.fsType with
    | .fat12 => clst + clst / 2
    | .fat16 => clst * 2
    | .fat32 => clst * 4

def FsType.entryBytes : FsType → ℕ
  | fat12 => 2
  | fat16 => 2
  | fat32 => 4

def Geometry.entry (g : Geometry) (m : Mem) (clst : ℕ) : ℕ :=
  let word := loadLE m (g.entryAt clst) g.fsType.entryBytes
  match g.fsType with
  | .fat12 => if clst % 2 = 1 then word / 2 ^ 4 else word % 2 ^ 12
  | .fat16 => word
  | .fat32 => word % 2 ^ 28

/-- The copies of the FAT. -/
def Geometry.InFats (g : Geometry) (a : ℕ) : Prop :=
  g.fatbase * SS ≤ a ∧ a < (g.fatbase + g.nFats * g.fsize) * SS

/-! ### Words -/

section Words

theorem or_shiftLeft {a b i : ℕ} (ha : a < 2 ^ i) : a ||| b <<< i = a + 2 ^ i * b := by
  rw [Nat.or_comm,← Nat.shiftLeft_add_eq_or_of_lt ha,Nat.shiftLeft_eq,Nat.mul_comm,Nat.add_comm]

theorem ldWord_eq (m : Mem) (p : ℕ) : ldWord m p = loadLE m p 2 := by
  have h0 := (m p).toNat_lt
  rw [ldWord,Nat.or_comm,or_shiftLeft h0]
  simp [loadLE]

theorem ldDword_eq (m : Mem) (p : ℕ) : ldDword m p = loadLE m p 4 := by
  have h0 := (m p).toNat_lt
  have h1 := (m (p + 1)).toNat_lt
  have h2 := (m (p + 2)).toNat_lt
  rw [ldDword,Nat.or_comm,or_shiftLeft h0,Nat.or_comm,or_shiftLeft h1,Nat.or_comm,or_shiftLeft h2]
  simp [loadLE]

/-- A 12-bit entry that begins in the middle of a byte takes the upper bits of two bytes, any other
the lower ones. -/
theorem firstByte_toNat (clst val : ℕ) (p : UInt8) :
    (FATFS.firstByte clst val p).toNat =
      if clst % 2 = 1 then p.toNat % 16 + 16 * (val % 16) else val % 256 := by
  have hodd : clst &&& 1 ≠ 0 ↔ clst % 2 = 1 := by
    rw [Nat.and_one_is_mod]
    omega
  rw [FATFS.firstByte]
  by_cases h : clst % 2 = 1
  · have hlow : p.toNat &&& 0x0F = p.toNat % 16 := Nat.and_two_pow_sub_one_eq_mod _ 4
    have hlt : p.toNat % 16 < 2 ^ 4 := Nat.mod_lt _ (by decide)
    rw [if_pos (hodd.mpr h),if_pos h,UInt8.toNat_ofNat',hlow,or_shiftLeft hlt]
    omega
  · rw [if_neg fun hn => h (hodd.mp hn),if_neg h,UInt8.toNat_ofNat']

/-- The upper half of a byte. -/
theorem and_high {n : ℕ} (hn : n / 16 < 16) : n &&& 0xF0 = (n / 16) <<< 4 := by
  have hmask : (0xF0 : ℕ) = (2 ^ 4 - 1) <<< 4 := by decide
  have hhalf : n / 16 = n >>> 4 &&& 2 ^ 4 - 1 := by
    rw [Nat.and_two_pow_sub_one_eq_mod,Nat.shiftRight_eq_div_pow]
    exact (Nat.mod_eq_of_lt hn).symm
  rw [hhalf,hmask]
  apply Nat.eq_of_testBit_eq
  intro i
  rw [Nat.testBit_and,Nat.testBit_shiftLeft,Nat.testBit_shiftLeft,Nat.testBit_and,
    Nat.testBit_shiftRight]
  by_cases hi : 4 ≤ i
  · have hplace : 4 + (i - 4) = i := by omega
    simp [hi,hplace]
  · simp [hi]

theorem secondByte_toNat (clst val : ℕ) (p : UInt8) :
    (FATFS.secondByte clst val p).toNat =
      if clst % 2 = 1 then val / 16 % 256 else val / 256 % 16 + 16 * (p.toNat / 16) := by
  have hodd : clst &&& 1 ≠ 0 ↔ clst % 2 = 1 := by
    rw [Nat.and_one_is_mod]
    omega
  have hbyte := p.toNat_lt
  rw [FATFS.secondByte]
  by_cases h : clst % 2 = 1
  · rw [if_pos (hodd.mpr h),if_pos h,UInt8.toNat_ofNat',Nat.shiftRight_eq_div_pow]
  · have hhigh : p.toNat &&& 0xF0 = (p.toNat / 16) <<< 4 := and_high (by omega)
    have hlow : (val >>> 8) % 256 &&& 0x0F = val / 256 % 16 := by
      rw [Nat.shiftRight_eq_div_pow]
      have hmod := Nat.and_two_pow_sub_one_eq_mod (val / 2 ^ 8 % 256) 4
      refine hmod.trans ?_
      omega
    have hlt : val / 256 % 16 < 2 ^ 4 := Nat.mod_lt _ (by decide)
    rw [if_neg fun hn => h (hodd.mp hn),if_neg h,UInt8.toNat_ofNat',hlow,hhigh,Nat.or_comm,
      or_shiftLeft hlt]
    omega

/-- The upper four bits of a 32-bit entry are kept. -/
theorem dword_merge (val old : ℕ) :
    (val &&& 0x0FFFFFFF ||| old &&& 0xF0000000) % 2 ^ 28 = val % 2 ^ 28 := by
  apply Nat.eq_of_testBit_eq
  intro i
  have hlow : ∀ n,n &&& 0x0FFFFFFF = n % 2 ^ 28 := fun n => Nat.and_two_pow_sub_one_eq_mod n 28
  have hhigh : (0xF0000000 : ℕ) = 0xF <<< 28 := by decide
  rw [Nat.testBit_mod_two_pow,Nat.testBit_or,hlow,Nat.testBit_mod_two_pow,Nat.testBit_and,hhigh,
    Nat.testBit_shiftLeft]
  by_cases hi : i < 28
  · simp [hi]
  · simp [hi]

end Words

/-! ### Entries -/

section Entries

variable {g : Geometry} {fs : FATFS} {clst : ℕ}

/-- An entry is in the first FAT, with all its bytes. -/
theorem Geometry.entryAt_fits (hclst : clst < g.nFatent) :
    g.fatbase * SS ≤ g.entryAt clst ∧
      g.entryAt clst + g.fsType.entryBytes ≤ (g.fatbase + g.fsize) * SS := by
  have hsize := g.fsizeOk
  rw [Nat.add_mul]
  rw [entryAt]
  cases htype : g.fsType with
  | fat12 =>
    rw [htype] at hsize
    simp only [FsType.szbfat,FsType.entryBytes] at hsize ⊢
    omega
  | fat16 =>
    rw [htype] at hsize
    simp only [FsType.szbfat,FsType.entryBytes] at hsize ⊢
    omega
  | fat32 =>
    rw [htype] at hsize
    simp only [FsType.szbfat,FsType.entryBytes] at hsize ⊢
    omega

/-- The first FAT is on the disk, and no part of the second one. -/
theorem Geometry.inFat (g : Geometry) {a : ℕ} (ha : a < (g.fatbase + g.fsize) * SS) :
    a < nSects * SS ∧ ¬g.InMirror a := by
  have hfats := g.fatsFit
  have hdata := g.dataFits
  have hone : g.fatbase + g.fsize ≤ nSects := by
    have hcopies : g.fsize ≤ g.nFats * g.fsize := by
      rcases g.fatsOk with h | h
      · rw [h,Nat.one_mul]
      · rw [h]
        omega
    omega
  exact ⟨ha.trans_le (Nat.mul_le_mul_right SS hone),fun h => absurd h.2.1 (not_le.mpr ha)⟩

/-- The bytes of the first FAT tell the entries. -/
theorem Geometry.entry_congr {m m' : Mem} (hclst : clst < g.nFatent)
    (h : ∀ a,g.fatbase * SS ≤ a → a < (g.fatbase + g.fsize) * SS → m a = m' a) :
    g.entry m clst = g.entry m' clst := by
  obtain ⟨hlo,hhi⟩ := g.entryAt_fits hclst
  have hword : loadLE m (g.entryAt clst) g.fsType.entryBytes =
      loadLE m' (g.entryAt clst) g.fsType.entryBytes :=
    loadLE_congr fun i hi => h _ (by omega) (by omega)
  rw [entry,entry,hword]

/-- The memory with another number in an entry. -/
def Geometry.putEntry (g : Geometry) (m : Mem) (clst val : ℕ) : Mem :=
  let p := g.entryAt clst
  match g.fsType with
  | .fat12 =>
    Function.update (Function.update m p (FATFS.firstByte clst val (m p))) (p + 1)
      (FATFS.secondByte clst val (m (p + 1)))
  | .fat16 => storeLE m p (val % 2 ^ 16) 2
  | .fat32 => storeLE m p (val &&& 0x0FFFFFFF ||| loadLE m p 4 &&& 0xF0000000) 4

theorem Geometry.putEntry_outside (m : Mem) (val : ℕ) {a : ℕ}
    (ha : a < g.entryAt clst ∨ g.entryAt clst + g.fsType.entryBytes ≤ a) :
    g.putEntry m clst val a = m a := by
  rw [putEntry]
  cases htype : g.fsType with
  | fat12 =>
    rw [htype,FsType.entryBytes] at ha
    have hne : a ≠ g.entryAt clst + 1 := by omega
    have hne' : a ≠ g.entryAt clst := by omega
    simp only [Function.update_of_ne hne,Function.update_of_ne hne']
  | fat16 =>
    rw [htype,FsType.entryBytes] at ha
    exact storeLE_outside ha
  | fat32 =>
    rw [htype,FsType.entryBytes] at ha
    exact storeLE_outside ha

/-- An entry that was put is got back, cut to its width, and no other entry changes. Two entries of
12 bits share a byte. -/
theorem Geometry.entry_putEntry (g : Geometry) (m : Mem) (clst val c : ℕ) :
    g.entry (g.putEntry m clst val) c =
      if c = clst then val % 2 ^ g.fsType.bits else g.entry m c := by
  rw [entry,entry,putEntry,entryAt,entryAt]
  cases htype : g.fsType with
  | fat12 =>
    simp only [FsType.entryBytes,FsType.bits,loadLE,Nat.mul_zero,Nat.add_zero]
    generalize g.fatbase * SS = base
    have hfirst := firstByte_toNat clst val (m (base + (clst + clst / 2)))
    have hsecond := secondByte_toNat clst val (m (base + (clst + clst / 2) + 1))
    generalize FATFS.firstByte clst val (m (base + (clst + clst / 2))) = b1 at hfirst ⊢
    generalize FATFS.secondByte clst val (m (base + (clst + clst / 2) + 1)) = b2 at hsecond ⊢
    simp only [Function.update_apply]
    have h1 := (m (base + (c + c / 2))).toNat_lt
    have h2 := (m (base + (c + c / 2) + 1)).toNat_lt
    by_cases he : c = clst
    · subst he
      have hne : ¬base + (c + c / 2) = base + (c + c / 2) + 1 := by omega
      simp only [if_neg hne,if_true,hfirst,hsecond]
      split_ifs <;> omega
    · rw [if_neg he]
      by_cases hnext : base + (c + c / 2) = base + (clst + clst / 2) + 1
      · -- the entry behind an even one
        have hodd : c % 2 = 1 := by omega
        have heven : ¬clst % 2 = 1 := by omega
        have hne : ¬base + (c + c / 2) + 1 = base + (clst + clst / 2) + 1 := by omega
        have hne' : ¬base + (c + c / 2) + 1 = base + (clst + clst / 2) := by omega
        rw [if_neg heven,← hnext] at hsecond
        simp only [if_pos hnext,if_neg hne,if_neg hne',if_pos hodd,hsecond]
        omega
      · by_cases hprev : base + (c + c / 2) + 1 = base + (clst + clst / 2)
        · -- the entry before an odd one
          have heven : ¬c % 2 = 1 := by omega
          have hodd : clst % 2 = 1 := by omega
          have hne : ¬base + (c + c / 2) = base + (clst + clst / 2) := by omega
          have hne' : ¬base + (c + c / 2) + 1 = base + (clst + clst / 2) + 1 := by omega
          rw [if_pos hodd,← hprev] at hfirst
          simp only [if_neg hnext,if_neg hne,if_neg hne',if_pos hprev,if_neg heven,hfirst]
          omega
        · have hne : ¬base + (c + c / 2) = base + (clst + clst / 2) := by omega
          have hne' : ¬base + (c + c / 2) + 1 = base + (clst + clst / 2) + 1 := by omega
          simp only [if_neg hnext,if_neg hne,if_neg hprev,if_neg hne']
  | fat16 =>
    simp only [FsType.entryBytes,FsType.bits]
    by_cases he : c = clst
    · rw [if_pos he,he,loadLE_storeLE,Nat.mod_eq_of_lt]
      exact Nat.mod_lt _ (by decide)
    · rw [if_neg he,loadLE_storeLE_outside (by omega)]
  | fat32 =>
    simp only [FsType.entryBytes,FsType.bits]
    by_cases he : c = clst
    · rw [if_pos he,he,loadLE_storeLE,Nat.mod_mod_of_dvd _ (by decide),dword_merge]
    · rw [if_neg he,loadLE_storeLE_outside (by omega)]

/-- The window is moved to a byte of the first FAT. -/
theorem move_at (hfs : fs.Coherent) {d : ℕ} (hd : g.fatbase * SS + d < (g.fatbase + g.fsize) * SS) :
    ∃ fs',fs.moveWindow g (g.fatbase + d / SS) = (.ok,fs') ∧ Kept g fs fs' ∧ g.InFat fs'.winsect ∧
      fs'.winsect * SS + d % SS = g.fatbase * SS + d := by
  have hin := (g.inFat hd).1
  have hsect : g.fatbase + d / SS < nSects ∧ g.InFat (g.fatbase + d / SS) := by
    unfold Geometry.InFat SS at *
    omega
  obtain ⟨fs',hmove,hkept,hat⟩ := moveWindow_spec (g := g) hfs hsect.1
  refine ⟨fs',hmove,hkept,hat ▸ hsect.2,?_⟩
  rw [hat]
  unfold SS
  omega

/-- What a byte of the first FAT is in the window. -/
theorem Shows.win_eq {m : Mem} {fs' : FATFS} (h : Shows g m fs fs') {d : ℕ}
    (hd : g.fatbase * SS + d < (g.fatbase + g.fsize) * SS)
    (hat : fs'.winsect * SS + d % SS = g.fatbase * SS + d) :
    fs'.win (d % SS) = m (g.fatbase * SS + d) := by
  obtain ⟨hin,hno⟩ := g.inFat hd
  rw [fs'.win_eq_view (Nat.mod_lt _ (by decide)),hat,h.view _ hin hno]

/-- What a few bytes of the first FAT are in the window. -/
theorem Shows.load {m : Mem} {fs' : FATFS} (h : Shows g m fs fs') {d n : ℕ} (hn : d % SS + n ≤ SS)
    (hd : g.fatbase * SS + d + n ≤ (g.fatbase + g.fsize) * SS)
    (hat : fs'.winsect * SS + d % SS = g.fatbase * SS + d) :
    loadLE fs'.win (d % SS) n = loadLE m (g.fatbase * SS + d) n := by
  rw [fs'.load_win hn,hat]
  apply loadLE_congr
  intro i hi
  have hin : g.fatbase * SS + d + i < (g.fatbase + g.fsize) * SS := by omega
  exact h.view _ (g.inFat hin).1 (g.inFat hin).2

theorem getFat_spec (hfs : fs.Coherent) (hlo : 2 ≤ clst) (hclst : clst < g.nFatent) :
    ∃ fs',fs.getFat g clst = (g.entry fs.view clst,fs') ∧ Kept g fs fs' ∧ g.InFat fs'.winsect := by
  obtain ⟨_,hfits⟩ := g.entryAt_fits hclst
  have hvalid : ¬(clst < 2 ∨ clst ≥ g.nFatent) := by omega
  rw [FATFS.getFat,if_neg hvalid]
  rw [Geometry.entryAt] at hfits
  rw [Geometry.entry,Geometry.entryAt]
  cases htype : g.fsType with
  | fat12 =>
    simp only [htype,FsType.entryBytes] at hfits ⊢
    have hfirst : g.fatbase * SS + (clst + clst / 2) < (g.fatbase + g.fsize) * SS := by omega
    have hsecond : g.fatbase * SS + (clst + clst / 2 + 1) < (g.fatbase + g.fsize) * SS := by omega
    obtain ⟨fs₁,hmove₁,hkept₁,_,hat₁⟩ := move_at hfs hfirst
    obtain ⟨fs₂,hmove₂,hkept₂,hfat,hat₂⟩ := move_at hkept₁.coherent hsecond
    have hwin₁ := hkept₁.win_eq hfirst hat₁
    have hwin₂ := (hkept₁.trans hkept₂).win_eq hsecond hat₂
    have hbyte := (fs.view (g.fatbase * SS + (clst + clst / 2))).toNat_lt
    simp only [hmove₁,hmove₂,hwin₁,hwin₂,loadLE,Nat.mul_zero,Nat.add_zero]
    refine ⟨fs₂,?_,hkept₁.trans hkept₂,hfat⟩
    have hodd : clst &&& 1 ≠ 0 ↔ clst % 2 = 1 := by
      rw [Nat.and_one_is_mod]
      omega
    have hlow : ∀ n,n &&& 0xFFF = n % 2 ^ 12 := fun n => Nat.and_two_pow_sub_one_eq_mod n 12
    simp only [hodd,or_shiftLeft hbyte,Nat.shiftRight_eq_div_pow,hlow,Nat.add_assoc]
    rfl
  | fat16 =>
    simp only [htype,FsType.entryBytes] at hfits ⊢
    have hd : g.fatbase * SS + clst * 2 < (g.fatbase + g.fsize) * SS := by omega
    obtain ⟨hsect,hoff⟩ : clst / (SS / 2) = clst * 2 / SS ∧ clst * 2 % SS + 2 ≤ SS := by
      unfold SS
      omega
    obtain ⟨fs',hmove,hkept,hfat,hat⟩ := move_at hfs hd
    simp only [hsect,hmove]
    refine ⟨fs',Prod.ext ?_ rfl,hkept,hfat⟩
    show ldWord fs'.win (clst * 2 % SS) = _
    rw [ldWord_eq,hkept.load hoff (by omega) hat]
  | fat32 =>
    simp only [htype,FsType.entryBytes] at hfits ⊢
    have hd : g.fatbase * SS + clst * 4 < (g.fatbase + g.fsize) * SS := by omega
    obtain ⟨hsect,hoff⟩ : clst / (SS / 4) = clst * 4 / SS ∧ clst * 4 % SS + 4 ≤ SS := by
      unfold SS
      omega
    obtain ⟨fs',hmove,hkept,hfat,hat⟩ := move_at hfs hd
    have hlow : ∀ n,n &&& 0x0FFFFFFF = n % 2 ^ 28 := fun n => Nat.and_two_pow_sub_one_eq_mod n 28
    simp only [hsect,hmove]
    refine ⟨fs',Prod.ext ?_ rfl,hkept,hfat⟩
    show ldDword fs'.win (clst * 4 % SS) &&& 0x0FFFFFFF = _
    rw [ldDword_eq,hlow,hkept.load hoff (by omega) hat]

/-- A few bytes of the first FAT are written in the window. -/
theorem Shows.put {m m' : Mem} {fs' : FATFS} (h : Shows g m fs fs') {win : Mem} {d n : ℕ}
    (hn : d % SS + n ≤ SS) (hd : g.fatbase * SS + d < (g.fatbase + g.fsize) * SS)
    (hat : fs'.winsect * SS + d % SS = g.fatbase * SS + d)
    (hwin : ∀ i,i < d % SS ∨ d % SS + n ≤ i → win i = fs'.win i)
    (hin : ∀ i < n,m' (g.fatbase * SS + d + i) = win (d % SS + i))
    (hout : ∀ a,a < g.fatbase * SS + d ∨ g.fatbase * SS + d + n ≤ a → m' a = m a) :
    Shows g m' fs (fs'.put win) := by
  have hpos : 0 < SS := by decide
  have hlo : g.fatbase ≤ fs'.winsect := by
    have hle : g.fatbase * SS < (fs'.winsect + 1) * SS := by
      rw [Nat.succ_mul]
      have hmod := Nat.mod_lt d hpos
      omega
    exact Nat.le_of_lt_succ (lt_of_mul_lt_mul_right hle (Nat.zero_le _))
  have hhi : fs'.winsect < g.fatbase + g.fsize := by
    refine lt_of_mul_lt_mul_right (a := SS) ?_ (Nat.zero_le _)
    omega
  refine ⟨h.coherent.put win,fun a ha hno => ?_,
    fun hm => ⟨fun _ hmirror => ?_,(h.mirrored hm).copies⟩,h.lastClst,h.freeClst⟩
  · rw [fs'.view_put hn hwin,hat]
    by_cases hin' : g.fatbase * SS + d ≤ a ∧ a < g.fatbase * SS + d + n
    · obtain ⟨i,rfl⟩ := Nat.exists_eq_add_of_le hin'.1
      have hplace : g.fatbase * SS + d + i - fs'.winsect * SS = d % SS + i := by omega
      rw [if_pos hin',hplace,hin i (by omega)]
    · rw [if_neg hin',h.view a ha hno,hout a (by omega)]
  · -- the sector is one of the first FAT
    rw [FATFS.put_winsect] at hmirror
    exact absurd hmirror.2.1 (by omega)

theorem Shows.putByte {m : Mem} {fs' : FATFS} (h : Shows g m fs fs') {d : ℕ}
    (hd : g.fatbase * SS + d < (g.fatbase + g.fsize) * SS)
    (hat : fs'.winsect * SS + d % SS = g.fatbase * SS + d) (b : UInt8) :
    Shows g (Function.update m (g.fatbase * SS + d) b) fs
      (fs'.put (Function.update fs'.win (d % SS) b)) := by
  have hone : d % SS + 1 ≤ SS := Nat.mod_lt d (by decide)
  refine h.put hone hd hat (fun i hi => ?_) (fun i hi => ?_) fun a ha => ?_
  · exact Function.update_of_ne (by omega) _ _
  · obtain rfl : i = 0 := by omega
    rw [Nat.add_zero,Nat.add_zero,Function.update_self,Function.update_self]
  · exact Function.update_of_ne (by omega) _ _

theorem Shows.store {m : Mem} {fs' : FATFS} (h : Shows g m fs fs') {d n : ℕ} (hn : d % SS + n ≤ SS)
    (hd : g.fatbase * SS + d < (g.fatbase + g.fsize) * SS)
    (hat : fs'.winsect * SS + d % SS = g.fatbase * SS + d) (val : ℕ) :
    Shows g (storeLE m (g.fatbase * SS + d) val n) fs (fs'.put (storeLE fs'.win (d % SS) val n)) := by
  refine h.put hn hd hat (fun i hi => storeLE_outside hi) (fun i hi => ?_) fun a ha =>
    storeLE_outside ha
  rw [storeLE_inside hi,storeLE_inside hi]

theorem putFat_spec (hfs : fs.Coherent) (hlo : 2 ≤ clst) (hclst : clst < g.nFatent) (val : ℕ) :
    ∃ fs',fs.putFat g clst val = (.ok,fs') ∧ Shows g (g.putEntry fs.view clst val) fs fs' ∧
      g.InFat fs'.winsect := by
  obtain ⟨_,hfits⟩ := g.entryAt_fits hclst
  rw [FATFS.putFat,if_pos ⟨hlo,hclst⟩]
  rw [Geometry.entryAt] at hfits
  rw [Geometry.putEntry,Geometry.entryAt]
  cases htype : g.fsType with
  | fat12 =>
    simp only [htype,FsType.entryBytes] at hfits ⊢
    have hfirst : g.fatbase * SS + (clst + clst / 2) < (g.fatbase + g.fsize) * SS := by omega
    have hsecond : g.fatbase * SS + (clst + clst / 2 + 1) < (g.fatbase + g.fsize) * SS := by omega
    obtain ⟨fs₁,hmove₁,hkept₁,_,hat₁⟩ := move_at hfs hfirst
    have hput₁ := hkept₁.putByte hfirst hat₁
      (FATFS.firstByte clst val (fs₁.win ((clst + clst / 2) % SS)))
    obtain ⟨fs₂,hmove₂,hkept₂,hfat,hat₂⟩ := move_at hput₁.coherent hsecond
    have hput₂ := (hput₁.trans hkept₂).putByte hsecond hat₂
      (FATFS.secondByte clst val (fs₂.win ((clst + clst / 2 + 1) % SS)))
    -- the two bytes as they were
    have hwin₁ := hkept₁.win_eq hfirst hat₁
    have hwin₂ := (hput₁.trans hkept₂).win_eq hsecond hat₂
    rw [Function.update_of_ne (by omega)] at hwin₂
    simp only [hmove₁,hmove₂]
    refine ⟨_,rfl,?_⟩
    have hplace : g.fatbase * SS + (clst + clst / 2) + 1 = g.fatbase * SS + (clst + clst / 2 + 1) :=
      Nat.add_assoc _ _ 1
    rw [hwin₁,hwin₂] at hput₂
    rw [hplace,hwin₂]
    exact ⟨hput₂,hfat⟩
  | fat16 =>
    simp only [htype,FsType.entryBytes] at hfits ⊢
    have hd : g.fatbase * SS + clst * 2 < (g.fatbase + g.fsize) * SS := by omega
    obtain ⟨hsect,hoff⟩ : clst / (SS / 2) = clst * 2 / SS ∧ clst * 2 % SS + 2 ≤ SS := by
      unfold SS
      omega
    obtain ⟨fs',hmove,hkept,hfat,hat⟩ := move_at hfs hd
    simp only [hsect,hmove]
    exact ⟨_,rfl,hkept.store hoff hd hat _,hfat⟩
  | fat32 =>
    simp only [htype,FsType.entryBytes] at hfits ⊢
    have hd : g.fatbase * SS + clst * 4 < (g.fatbase + g.fsize) * SS := by omega
    obtain ⟨hsect,hoff⟩ : clst / (SS / 4) = clst * 4 / SS ∧ clst * 4 % SS + 4 ≤ SS := by
      unfold SS
      omega
    obtain ⟨fs',hmove,hkept,hfat,hat⟩ := move_at hfs hd
    have hold := hkept.load hoff (by omega) hat
    simp only [hsect,hmove]
    refine ⟨_,rfl,?_⟩
    rw [ldDword_eq,hold]
    exact ⟨hkept.store hoff hd hat _,hfat⟩

end Entries

end UcVfs.Fatfs
