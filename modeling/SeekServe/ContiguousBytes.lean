import SeekServe.ContiguousBuffer

/-!
# Contiguous bytes

`contiguous_bytes_from` against the bytes of the torrent: how many of them can be read from a
place on without meeting a piece that is missing.
-/

namespace SeekServe

set_option autoImplicit false

open Finset

namespace PieceAvailabilityIndex

def totalBytes (a : PieceAvailabilityIndex) : Int :=
  (a.numPieces - 1) * a.pieceLength + a.lastPieceLength

/-- The `k` bytes of the torrent from `byte` on exist and lie in complete pieces. -/
structure Readable (a : PieceAvailabilityIndex) (byte k : Int) : Prop where
  nonneg : 0 ≤ k
  exist : byte + k ≤ a.totalBytes
  complete : ∀ b, byte ≤ b → b < byte + k → a.isComplete (b / a.pieceLength) = true

/-- One file of so many bytes. -/
def wholeTorrent (numPieces pieceLength lastPieceLength : Int) : FileStorage :=
  .ofFiles pieceLength [⟨[], (numPieces - 1) * pieceLength + lastPieceLength⟩]

section Whole
variable {n l last : Int}

theorem wellFormed_wholeTorrent (hn : 1 ≤ n) (hl : 1 ≤ l) (hlast : 1 ≤ last) :
    (wholeTorrent n l last).WellFormed := by
  refine FileStorage.wellFormed_ofFiles (by omega) ?_
  intro f hf
  rw [List.mem_singleton.mp hf]
  have hmul := Int.mul_nonneg (show 0 ≤ n - 1 by omega) (show 0 ≤ l by omega)
  simp only
  omega

theorem totalSize_wholeTorrent :
    (wholeTorrent n l last).totalSize = (n - 1) * l + last := by
  simp [wholeTorrent, FileStorage.ofFiles, FileStorage.totalSize]

theorem describes_reset (hl : 1 ≤ l) (hlast : 1 ≤ last) (hle : last ≤ l) :
    (reset n l last).Describes (wholeTorrent n l last) := by
  have hnum : (wholeTorrent n l last).numPieces = n := by
    unfold FileStorage.numPieces
    rw [totalSize_wholeTorrent]
    have hpred : (n - 1) * l = n * l - l := by rw [Int.sub_mul, Int.one_mul]
    have hdiv : ((n - 1) * l + last + l - 1) / l = n := by
      apply Int.le_antisymm
      · have hlt := (Int.ediv_lt_iff_lt_mul (show 0 < l by omega)
          (a := (n - 1) * l + last + l - 1) (b := n + 1)).mpr (by
            rw [Int.add_mul, Int.one_mul]
            omega)
        omega
      · exact (Int.le_ediv_iff_mul_le (show 0 < l by omega)).mpr (by omega)
    exact hdiv
  constructor
  · exact hnum.symm
  · rfl
  · rw [hnum, FileStorage.pieceSize, totalSize_wholeTorrent]
    have hl' : (wholeTorrent n l last).pieceLength = l := rfl
    have hsame : (reset n l last).lastPieceLength = last := rfl
    rw [hl', hsame]
    omega

end Whole

theorem describes_foldl {fs : FileStorage} {a : PieceAvailabilityIndex} (h : a.Describes fs)
    (marks : List Int) : (marks.foldl markComplete a).Describes fs := by
  induction marks generalizing a with
  | nil => exact h
  | cons p marks ih => exact ih (describes_markComplete h p)

section Described
variable {fs : FileStorage} (hfs : fs.WellFormed) {a : PieceAvailabilityIndex}
  (hd : a.Describes fs)
include hfs hd

theorem totalBytes_eq : a.totalBytes = fs.totalSize := by
  have hbounds := FileStorage.numPieces_bounds hfs
  unfold totalBytes
  rw [hd.numPieces, hd.pieceLength, hd.lastPieceLength, FileStorage.pieceSize]
  have hsucc : (fs.numPieces - 1) * fs.pieceLength = fs.numPieces * fs.pieceLength -
      fs.pieceLength := by rw [Int.sub_mul, Int.one_mul]
  omega

/-- The pieces are as long as the places where they begin are apart. -/
theorem pieceStart_add {p : Int} {n : Nat} (hn : p + n ≤ fs.numPieces) :
    fs.pieceStart (p + n) = fs.pieceStart p + ∑ i ∈ range n, a.lengthOf (p + (i : Nat)) := by
  induction n with
  | zero => simp
  | succ n ih =>
    have hsucc := FileStorage.pieceStart_succ hfs hd (p := p + n) (by omega)
    have hsum : p + ((n + 1 : Nat) : Int) = p + n + 1 := by omega
    rw [hsum, hsucc, ih (by omega), sum_range_succ, Int.add_assoc]

omit hfs in
theorem contiguousFrom_bounds {p : Int} (hp : p ≤ a.numPieces) :
    0 ≤ a.contiguousFrom p ∧ p + a.contiguousFrom p ≤ fs.numPieces := by
  have hle := a.countFrom_le p (a.numPieces - p).toNat
  have hnum := hd.numPieces
  refine ⟨a.countFrom_nonneg _ _, ?_⟩
  unfold contiguousFrom
  omega

omit hfs in
theorem one_le_contiguousFrom {p : Int} (hp : p < a.numPieces)
    (hc : a.isComplete p = true) : 1 ≤ a.contiguousFrom p := by
  have hnonneg := (contiguousFrom_bounds hd (Int.le_of_lt hp)).1
  have hnext := a.isComplete_contiguousFrom (Int.le_of_lt hp)
  by_contra hzero
  have hnone : a.contiguousFrom p = 0 := by omega
  rw [hnone, Int.add_zero, hc] at hnext
  cases hnext

/-- The bytes that are counted are all that can be read. -/
theorem isGreatest_contiguousBytesFrom {p offset : Int} (hp : p < a.numPieces)
    (ho0 : 0 ≤ offset) (ho : offset < a.lengthOf p) (hc : a.isComplete p = true) :
    IsGreatest {k | a.Readable (p * a.pieceLength + offset) k}
      (a.contiguousBytesFrom p offset) := by
  have hl := hfs.pieceLength_pos
  have hpn : p < fs.numPieces := hd.numPieces ▸ hp
  have htotal := totalBytes_eq hfs hd
  have hstart := FileStorage.pieceStart_eq hfs hpn
  have hsucc := FileStorage.pieceStart_succ hfs hd hpn
  have hone := one_le_contiguousFrom hd hp hc
  have hnext := a.isComplete_contiguousFrom (Int.le_of_lt hp)
  have hbytes := contiguousBytesFrom_eq hfs hd hpn hc offset
  have hmul := Int.mul_le_mul_of_nonneg_right
    (show p + 1 ≤ p + a.contiguousFrom p by omega) (Int.le_of_lt hl)
  have hlen := hd.pieceLength
  unfold FileStorage.pieceStart at hstart hsucc hbytes
  constructor
  · constructor
    · omega
    · rw [hlen]
      omega
    · intro b h1 h2
      apply a.isComplete_of_lt_countFrom (p := p) (n := (a.numPieces - p).toNat)
      · rw [hlen]
        exact (Int.le_ediv_iff_mul_le hl).mpr (by rw [← hlen]; omega)
      · rw [hlen]
        apply (Int.ediv_lt_iff_lt_mul hl).mpr
        show b < (p + a.contiguousFrom p) * fs.pieceLength
        rw [hlen] at h1 h2
        omega
  · -- more bytes would end in the piece that is missing, or past the end of the torrent
    intro k hk
    have hexist := hk.exist
    by_contra hlt
    have hat : p * a.pieceLength + offset + a.contiguousBytesFrom p offset =
        (p + a.contiguousFrom p) * fs.pieceLength := by
      rw [hlen] at hexist ⊢
      omega
    have hbad := hk.complete ((p + a.contiguousFrom p) * fs.pieceLength) (by omega) (by omega)
    rw [hlen, Int.mul_ediv_cancel _ (ne_of_gt hl), hnext] at hbad
    cases hbad

theorem contiguousBytesFrom_sum {p : Int} (hp : p < a.numPieces)
    (hc : a.isComplete p = true) (offset : Int) :
    a.contiguousBytesFrom p offset =
      (∑ i ∈ range (a.contiguousFrom p).toNat, a.lengthOf (p + (i : Nat))) - offset := by
  obtain ⟨hnonneg, hle⟩ := contiguousFrom_bounds hd (Int.le_of_lt hp)
  have hcast : ((a.contiguousFrom p).toNat : Int) = a.contiguousFrom p :=
    Int.toNat_of_nonneg hnonneg
  have hadd := pieceStart_add hfs hd (p := p) (n := (a.contiguousFrom p).toNat) (by omega)
  rw [hcast] at hadd
  rw [contiguousBytesFrom_eq hfs hd (hd.numPieces ▸ hp) hc offset, hadd]
  omega

theorem contiguousBytesFrom_rest {p : Int} (hp : p < a.numPieces) (offset : Int)
    (hall : ∀ q, p ≤ q → q < a.numPieces → a.isComplete q = true) :
    a.contiguousBytesFrom p offset = a.totalBytes - (p * a.pieceLength + offset) := by
  have hpn : p < fs.numPieces := hd.numPieces ▸ hp
  have hc := hall p (Int.le_refl p) hp
  obtain ⟨hnonneg, hle⟩ := contiguousFrom_bounds hd (Int.le_of_lt hp)
  have hnext := a.isComplete_contiguousFrom (Int.le_of_lt hp)
  have hend : p + a.contiguousFrom p = fs.numPieces := by
    by_contra hne
    rw [hall _ (by omega) (by rw [hd.numPieces]; omega)] at hnext
    cases hnext
  have hlast : fs.pieceStart fs.numPieces = fs.totalSize :=
    Int.min_eq_right (FileStorage.numPieces_bounds hfs).1
  rw [contiguousBytesFrom_eq hfs hd hpn hc offset, hend, hlast, totalBytes_eq hfs hd,
    FileStorage.pieceStart_eq hfs hpn, hd.pieceLength]
  omega

end Described

theorem Readable.mark {a : PieceAvailabilityIndex} {fs : FileStorage} (hfs : fs.WellFormed)
    (hd : a.Describes fs) {byte k : Int} (h : a.Readable byte k) (marks : List Int) :
    (marks.foldl markComplete a).Readable byte k := by
  have hd' := describes_foldl hd marks
  refine ⟨h.nonneg, ?_, ?_⟩
  · rw [totalBytes_eq hfs hd', ← totalBytes_eq hfs hd]
    exact h.exist
  · intro b h1 h2
    rw [hd'.pieceLength, ← hd.pieceLength]
    exact (a.isComplete_foldl_markComplete marks _).mpr (.inr (h.complete b h1 h2))

/-- What can be read only grows. -/
theorem contiguousBytesFrom_le_foldl {a : PieceAvailabilityIndex} {fs : FileStorage}
    (hfs : fs.WellFormed) (hd : a.Describes fs) {start offset : Int} (hs : start < a.numPieces)
    (ho0 : 0 ≤ offset) (ho : offset < a.lengthOf start) (more : List Int) :
    a.contiguousBytesFrom start offset ≤
      (more.foldl markComplete a).contiguousBytesFrom start offset := by
  have hd' := describes_foldl hd more
  have hs' : start < (more.foldl markComplete a).numPieces := by
    rw [hd'.numPieces, ← hd.numPieces]
    exact hs
  have hlength : (more.foldl markComplete a).lengthOf start = a.lengthOf start := by
    unfold lengthOf
    rw [hd'.numPieces, hd'.pieceLength, hd'.lastPieceLength, hd.numPieces, hd.pieceLength,
      hd.lastPieceLength]
  by_cases hc : a.isComplete start = true
  · have hc' := (a.isComplete_foldl_markComplete more start).mpr (.inr hc)
    have hread := (isGreatest_contiguousBytesFrom hfs hd hs ho0 ho hc).1.mark hfs hd more
    have hgreatest := isGreatest_contiguousBytesFrom hfs hd' hs' ho0 (hlength ▸ ho) hc'
    rw [hd'.pieceLength, ← hd.pieceLength] at hgreatest
    exact hgreatest.2 hread
  · rw [contiguousBytesFrom, if_neg hc]
    by_cases hc' : (more.foldl markComplete a).isComplete start = true
    · exact (isGreatest_contiguousBytesFrom hfs hd' hs' ho0 (hlength ▸ ho) hc').1.nonneg
    · rw [contiguousBytesFrom, if_neg hc']

/-- The count is that of the bytes which can be read, of the pieces that `contiguous_from`
counts, and grows with the pieces up to the rest of the torrent. -/
theorem contiguousBytesFrom_exact (n l last : Int) (hn : 1 ≤ n) (hl : 1 ≤ l) (hlast : 1 ≤ last)
    (hle : last ≤ l) (marks : List Int) (a : PieceAvailabilityIndex)
    (ha : a = marks.foldl markComplete (reset n l last)) (start offset : Int) (hs : start < n)
    (ho0 : 0 ≤ offset) (ho : offset < a.lengthOf start) :
    (a.isComplete start = false → a.contiguousBytesFrom start offset = 0) ∧
      (a.isComplete start = true →
        IsGreatest {k | a.Readable (start * l + offset) k} (a.contiguousBytesFrom start offset) ∧
          a.contiguousBytesFrom start offset =
            (∑ i ∈ range (a.contiguousFrom start).toNat, a.lengthOf (start + (i : Nat))) -
              offset) ∧
      (∀ p, start ≤ p → p < start + a.contiguousFrom start → a.isComplete p = true) ∧
      a.isComplete (start + a.contiguousFrom start) = false ∧
      (∀ more : List Int, a.contiguousBytesFrom start offset ≤
        (more.foldl markComplete a).contiguousBytesFrom start offset) ∧
      ((∀ p, start ≤ p → p < n → a.isComplete p = true) →
        a.contiguousBytesFrom start offset = (n - 1) * l + last - (start * l + offset)) := by
  have hfs := wellFormed_wholeTorrent hn hl hlast
  have hd : a.Describes (wholeTorrent n l last) :=
    ha ▸ describes_foldl (describes_reset hl hlast hle) marks
  have hnum : a.numPieces = n :=
    hd.numPieces.trans (describes_reset hl hlast hle).numPieces.symm
  have hlen : a.pieceLength = l := hd.pieceLength
  have htotal : a.totalBytes = (n - 1) * l + last :=
    (totalBytes_eq hfs hd).trans totalSize_wholeTorrent
  have hp : start < a.numPieces := by omega
  refine ⟨?_, ?_, ?_, ?_, ?_, ?_⟩
  · intro hc
    rw [contiguousBytesFrom, if_neg (by rw [hc]; exact Bool.false_ne_true)]
  · intro hc
    have hgreatest := isGreatest_contiguousBytesFrom hfs hd hp ho0 ho hc
    rw [hlen] at hgreatest
    exact ⟨hgreatest, contiguousBytesFrom_sum hfs hd hp hc offset⟩
  · intro p h1 h2
    exact a.isComplete_of_lt_countFrom h1 h2
  · exact a.isComplete_contiguousFrom (Int.le_of_lt hp)
  · exact contiguousBytesFrom_le_foldl hfs hd hp ho0 ho
  · intro hall
    rw [← hnum] at hall
    rw [contiguousBytesFrom_rest hfs hd hp offset hall, htotal, hlen]

/-- Ten pieces, of which the last one is shorter. -/
theorem contiguousBytesFrom_exact_ten :
    IsGreatest
      {k | ([8, 9].foldl markComplete (reset 10 1000 500)).Readable (8 * 1000 + 200) k} 1300 :=
  ((contiguousBytesFrom_exact 10 1000 500 (by decide) (by decide) (by decide) (by decide) [8, 9] _
    rfl 8 200 (by decide) (by decide) (by decide)).2.1 (by decide)).1

end PieceAvailabilityIndex

end SeekServe
