import Availability.Proofs.Blob.Sequence

/-!
# Blobs in a square of their own

The longest blob is meant to fill a square of the default width. Its limit is the number of bytes
that the shares of such a square hold when **none** of them starts a sequence. The first share of a
blob does, though, and keeps four of its bytes for the length: a blob whose last bytes are these
four needs one share more than there are.

* `sharesNeeded_le_iff` – how many bytes go into some shares;
* `exists_minSquare?_eq` – the smallest square is the one that the shares go into;
* `roomForBlob` – the most bytes of a blob that **go into a square**, `maxBlobSize_eq` – and how far
  the limit is above it;
* `fitsDefaultSquare_iff` – which of the blobs there are go into a square of the default width;
* `exists_blob_beyond_defaultSquare` – the longest one does not.
-/

namespace Availability

/-! ### Bytes, shares and squares -/

/-- **How many bytes go into some shares**: four less than there would be if none of them started a
sequence. -/
theorem sharesNeeded_le_iff {size shares : Nat} (h : 0 < shares) :
    sharesNeeded size ≤ shares ↔ size ≤ shares * 482 - 4 := by
  rw [sharesNeeded_eq]
  constructor
  · intro hle
    have hrest : (size - 478 + 481) / 482 ≤ shares - 1 := by omega
    have hbytes : size - 478 + 481 < (shares - 1 + 1) * 482 :=
      Nat.lt_mul_of_div_lt (Nat.lt_succ_of_le hrest) (by norm_num)
    omega
  · intro hle
    have hbytes : size - 478 + 481 < shares * 482 := by omega
    exact Nat.div_lt_of_lt_mul (Nat.mul_comm shares 482 ▸ hbytes)

/-- **The smallest square** for some shares is as narrow as a square with room for them can be. -/
theorem exists_minSquare?_eq {shares : Nat} (h : shares ≤ 2 ^ 63) :
    ∃ width, minSquare? shares = some width ∧
      ∀ k, width ≤ 2 ^ k ↔ shares ≤ 2 ^ k * 2 ^ k := by
  refine ⟨_, minSquare?_of_le h, fun k => ⟨fun hwidth => ?_, minSquare_le⟩⟩
  exact (le_minSquare shares).trans (Nat.mul_le_mul hwidth hwidth)

/-- The width of a square by default. -/
def defaultSquareWidth : Nat := 64

/-- The most bytes of a blob that go into a square of the given width. -/
def roomForBlob (width : Nat) : Nat := width * width * 482 - 4

/-- The limit on the size of blobs is four bytes above what a square of the default width has room
for. -/
theorem maxBlobSize_eq : maxBlobSize = roomForBlob defaultSquareWidth + 4 := rfl

/-! ### Which blobs go into a default square -/

/-- **The longest blobs do not go into a square of the default width.** All parts that make a blob
are written in shares. These go into a square of the default width, and the smallest square for them
is not wider, exactly when the blob is within the room of such a square. This leaves out the last
four sizes of blobs, which need one share more. -/
theorem fitsDefaultSquare_iff {ns : Namespace} {data : Bytes} {version : UInt8}
    (h : validateBlob ns data version = .ok ()) :
    ∃ shares width, ShareSplitter.empty.write ns version data = .ok ⟨shares⟩ ∧
      minSquare? shares.length = some width ∧
      (shares.length ≤ defaultSquareWidth * defaultSquareWidth ↔
        data.length ≤ roomForBlob defaultSquareWidth) ∧
      (width ≤ defaultSquareWidth ↔ data.length ≤ roomForBlob defaultSquareWidth) ∧
      (roomForBlob defaultSquareWidth < data.length →
        data.length ≤ roomForBlob defaultSquareWidth + 4 ∧
          shares.length = defaultSquareWidth * defaultSquareWidth + 1) := by
  obtain ⟨-, hsize, hns, -⟩ := validateBlob_eq_ok_iff.mp h
  have hcount := Share.length_split (Namespace.not_isCompact hns) version data
  have hfits : (Share.split ns version data).length ≤ defaultSquareWidth * defaultSquareWidth ↔
      data.length ≤ roomForBlob defaultSquareWidth := by
    rw [hcount]
    exact sharesNeeded_le_iff (by norm_num [defaultSquareWidth])
  obtain ⟨width, hsquare, hwidth⟩ := exists_minSquare?_eq (length_split_le_two_pow h)
  refine ⟨_, width, write_of_validateBlob h, hsquare, hfits, (hwidth 6).trans hfits, ?_⟩
  intro hbeyond
  have hmore := mt hfits.mp (not_le.mpr hbeyond)
  exact ⟨maxBlobSize_eq ▸ hsize, le_antisymm (length_split_le h) (not_le.mp hmore)⟩

/-- Equal bytes make a blob, if they are neither too few nor too many. -/
theorem validateBlob_replicate {size : Nat} (hpos : 0 < size) (hsize : size ≤ maxBlobSize) :
    validateBlob (.ofSuffix [1, 0]) (List.replicate size 7) 0 = .ok () := by
  have hlength : (List.replicate size (7 : UInt8)).length = size := List.length_replicate
  refine validateBlob_eq_ok_iff.mpr ⟨?_, hlength.trans_le hsize, rfl, List.mem_cons_self⟩
  exact List.ne_nil_of_length_pos (hpos.trans_eq hlength.symm)

/-- The longest blob that goes into a square of the default width fills it. -/
theorem fitsDefaultSquare_of_full :
    validateBlob (.ofSuffix [1, 0]) (List.replicate (64 * 64 * 482 - 4) 7) 0 = .ok () ∧
      ∃ shares width, ShareSplitter.empty.write (.ofSuffix [1, 0]) 0
          (List.replicate (64 * 64 * 482 - 4) 7) = .ok ⟨shares⟩ ∧
        minSquare? shares.length = some width ∧ shares.length ≤ 64 * 64 ∧ width ≤ 64 := by
  have hvalid : validateBlob (.ofSuffix [1, 0]) (List.replicate (64 * 64 * 482 - 4) 7) 0 = .ok () :=
    validateBlob_replicate (by norm_num) (Nat.sub_le _ _)
  have hlength : (List.replicate (64 * 64 * 482 - 4) (7 : UInt8)).length ≤
      roomForBlob defaultSquareWidth := List.length_replicate.le
  obtain ⟨shares, width, hwrite, hsquare, hfits, hnarrow, -⟩ := fitsDefaultSquare_iff hvalid
  exact ⟨hvalid, shares, width, hwrite, hsquare, hfits.mpr hlength, hnarrow.mpr hlength⟩

/-- The longest blobs need a square of twice the width. -/
theorem Blob.exists_make_of_longest {ns : Namespace} {data : Bytes} {version : UInt8}
    (h : validateBlob ns data version = .ok ()) (hlongest : data.length = maxBlobSize)
    (app : AppVersion) :
    ∃ blob, Blob.make ns data version app = .ok blob ∧ blob.data.length = maxBlobSize ∧
      blob.shareCount = 64 * 64 + 1 ∧ minSquare? blob.shareCount = some 128 := by
  obtain ⟨blob, hmake⟩ := Blob.exists_make_eq_ok h app
  obtain ⟨-, -, rfl, -⟩ := Blob.of_make_eq_ok hmake
  have hcount : blob.shareCount = 64 * 64 + 1 := by
    rw [Blob.shareCount, hlongest]
    rfl
  refine ⟨blob, hmake, hlongest, hcount, ?_⟩
  rw [hcount, minSquare?, ceilSqrt_mul_self_succ]
  rfl

/-- **The longest blob goes into no square of the default width**, although it is a blob under the
rules of every version. -/
theorem exists_blob_beyond_defaultSquare :
    validateBlob (.ofSuffix [1, 0]) (List.replicate (64 * 64 * 482) 7) 0 = .ok () ∧
      ∀ app, ∃ blob,
        Blob.make (.ofSuffix [1, 0]) (List.replicate (64 * 64 * 482) 7) 0 app = .ok blob ∧
        ¬blob.shareCount ≤ defaultSquareWidth * defaultSquareWidth ∧
        ∃ width, minSquare? blob.shareCount = some width ∧ ¬width ≤ defaultSquareWidth := by
  have hvalid : validateBlob (.ofSuffix [1, 0]) (List.replicate (64 * 64 * 482) 7) 0 = .ok () :=
    validateBlob_replicate (by norm_num) le_rfl
  refine ⟨hvalid, fun app => ?_⟩
  obtain ⟨blob, hmake, -, hcount, hsquare⟩ :=
    Blob.exists_make_of_longest hvalid List.length_replicate app
  refine ⟨blob, hmake, ?_, 128, hsquare, ?_⟩
  · rw [hcount]
    exact Nat.not_succ_le_self _
  · exact Nat.not_le_of_lt (by norm_num [defaultSquareWidth])

end Availability
