import TileCore.Proofs.Machine.ByteRows
import TileCore.Proofs.Machine.Faulted

/-!
# Loading an image

A core is made with an image in its memory, or it is given an image later. The one way copies the
image as a whole and fills up with zeros; the other one stores its bytes one after the other into a
cleared memory, and fails in the middle if there is no room. Both come to the same core as long as
the image fits: what the stores have done by any moment is the image of the bytes stored so far. An
image that does not fit is refused at the first byte that has no place, and the core keeps
everything, what it has come to included.

## Main results

* `Memory.storeBytes_ofImage`: storing bytes behind an image.
* `load_starts_again`: a load gives a new core or leaves the old one.
-/

namespace TileCore

namespace Memory

theorem size_ofImage_of_le {image : List Byte} {n : Nat} (h : image.length ≤ n) :
    (ofImage image n).size = n := by
  rw [size_ofImage, Nat.max_eq_left h]

/-- Bytes that are stored behind an image make it longer, as far as there is room; the first byte
without a place fails. -/
theorem storeBytes_ofImage {n : Nat} (hn : n < 0x100000000) (image bytes : List Byte)
    (h : image.length ≤ n) :
    (ofImage image n).storeBytes (BitVec.ofNat 32 image.length) bytes =
      if image.length + bytes.length ≤ n then (ofImage (image ++ bytes) n, .ok ())
      else (ofImage (image ++ bytes.take (n - image.length)) n,
        .error (.outOfBounds (BitVec.ofNat 32 n) 1)) := by
  have haddr : (BitVec.ofNat 32 image.length).toNat = image.length :=
    Nat.mod_eq_of_lt (Nat.lt_of_le_of_lt h hn)
  have hsize := size_ofImage_of_le h
  have hroom : (ofImage image n).size < 0x100000000 := by rwa [hsize]
  have hbytes : ((ofImage image n).storeBytes (BitVec.ofNat 32 image.length) bytes).1 =
      ofImage (image ++ bytes.take (n - image.length)) n := by
    refine ext_byte ?_ fun a => ?_
    · rw [size_storeBytes, hsize, size_ofImage_of_le]
      rw [List.length_append, List.length_take]
      omega
    · rw [byte_storeBytes hroom, haddr, hsize, byte_ofImage, byte_ofImage,
        List.getD_eq_getElem?_getD, List.getD_eq_getElem?_getD, List.getElem?_append,
        List.getElem?_take]
      rcases Nat.lt_or_ge a image.length with hin | hbehind
      · rw [if_neg (by omega), if_pos hin]
      · rw [if_neg (Nat.not_lt.mpr hbehind), List.getElem?_eq_none hbehind, Option.getD_none]
        by_cases hend : a < n
        · rw [if_pos ⟨hbehind, hend⟩, if_pos (by omega)]
        · rw [if_neg fun hplace => hend hplace.2, if_neg (by omega), Option.getD_none]
  have hresult := storeBytes_snd hroom (BitVec.ofNat 32 image.length) bytes
  rw [haddr, hsize, Nat.max_eq_right h] at hresult
  by_cases hfits : image.length + bytes.length ≤ n
  · rw [if_pos (.inr hfits)] at hresult
    rw [List.take_of_length_le (Nat.le_sub_of_add_le' hfits)] at hbytes
    rw [if_pos hfits]
    exact Prod.ext hbytes hresult
  · have hne : bytes ≠ [] := fun hnil => hfits (by rwa [hnil, List.length_nil])
    rw [if_neg (not_or.mpr ⟨hne, hfits⟩)] at hresult
    rw [if_neg hfits]
    exact Prod.ext hbytes hresult

theorem zeros_eq_ofImage (n : Nat) : zeros n = ofImage [] n := by
  rw [zeros, ofImage, List.length_nil, Nat.sub_zero, Array.empty_append]

end Memory

/-- Whatever a core has come to, an image that fits into its memory makes it the core that starts
with this image, in a memory of the same size and with the same control values. An image that does
not fit is refused at the first byte behind the memory, and the core stays as it is. -/
theorem load_starts_again {c : Core} (hsize : c.machine.memory.size < 0x100000000)
    (image : List Byte) :
    (image.length ≤ c.machine.memory.size →
      c.load image = (Core.ofImage image c.control c.machine.memory.size, .ok ())) ∧
    (c.machine.memory.size < image.length →
      c.load image = (c, .error
        (.outOfBounds (BitVec.ofNat 32 c.machine.memory.size) 1))) := by
  have hstore := Memory.storeBytes_ofImage hsize [] image (Nat.zero_le _)
  rw [← Memory.zeros_eq_ofImage, List.length_nil, Nat.zero_add, List.nil_append,
    List.nil_append] at hstore
  have hstart : (BitVec.ofNat 32 0 : Word) = 0 := rfl
  rw [hstart] at hstore
  refine ⟨fun hfits => ?_, fun hlong => ?_⟩
  · rw [if_pos hfits] at hstore
    rw [Core.load, hstore]
    rfl
  · rw [if_neg (Nat.not_le_of_gt hlong)] at hstore
    rw [Core.load, hstore]

/-- The core that has failed starts again with an image that fills its memory, and keeps its fault
when the image is longer by one byte. -/
theorem load_starts_again_of_failed_load :
    failedLoad.fault? = some (.misaligned 2) ∧ failedLoad.machine.memory.size = 8 ∧
      failedLoad.load (Word.toBytes 0x00100093 ++ Word.toBytes haltWord) =
        (Core.ofImage (Word.toBytes 0x00100093 ++ Word.toBytes haltWord) Control.default 8,
          .ok ()) ∧
      failedLoad.load (Word.toBytes 0x00100093 ++ Word.toBytes haltWord ++ [0]) =
        (failedLoad, .error (.outOfBounds 8 1)) := by
  have hsize : failedLoad.machine.memory.size = 8 := by rfl
  have hsmall : failedLoad.machine.memory.size < 0x100000000 := by rw [hsize]; decide
  refine ⟨rfl, hsize, ?_, ?_⟩
  · exact (load_starts_again hsmall _).1 (by rw [hsize]; decide)
  · exact (load_starts_again hsmall _).2 (by rw [hsize]; decide)

end TileCore
