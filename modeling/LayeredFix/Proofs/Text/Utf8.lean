import LayeredFix.Text.Utf8

/-!
# What the bytes of a text tell

The bytes of a text determine the text (`encode_injective`), and a zero byte stands for a zero character
only (`zero_notMem_encode`). So a zero byte can mark the end of a text that has no zero character.
-/

namespace LayeredFix.Utf8

/-- Different texts have different bytes. -/
theorem encode_injective {t u : Text} (h : encode t = encode u) : t = u := by
  have hb : t.utf8Encode = u.utf8Encode := congrArg List.toByteArray h
  have hd := congrArg ByteArray.utf8Decode? hb
  simpa using hd

theorem ofNat_ne_zero {n : Nat} (h0 : 0 < n) (h : n < 256) : UInt8.ofNat n ≠ 0 := by
  intro he
  have hn := congrArg UInt8.toNat he
  rw [UInt8.toNat_ofNat', Nat.mod_eq_of_lt h] at hn
  simp at hn
  omega

/-- Among the bytes of a character other than the zero character there is no zero: all bytes of a longer
spelling have their highest bit set. -/
theorem zero_notMem_utf8EncodeChar {c : Char} (h : c ≠ '\x00') : 0 ∉ String.utf8EncodeChar c := by
  have hc : 0 < c.val.toNat := by
    refine Nat.pos_of_ne_zero fun h0 => h ?_
    exact Char.ext (UInt32.toNat_inj.1 h0)
  fun_cases String.utf8EncodeChar c
  all_goals
    simp only [List.mem_cons, List.not_mem_nil, or_false, not_or]
  · exact Ne.symm (ofNat_ne_zero hc (by omega))
  · exact ⟨Ne.symm (ofNat_ne_zero (by omega) (by omega)), Ne.symm (ofNat_ne_zero (by omega) (by omega))⟩
  · exact ⟨Ne.symm (ofNat_ne_zero (by omega) (by omega)), Ne.symm (ofNat_ne_zero (by omega) (by omega)),
      Ne.symm (ofNat_ne_zero (by omega) (by omega))⟩
  · exact ⟨Ne.symm (ofNat_ne_zero (by omega) (by omega)), Ne.symm (ofNat_ne_zero (by omega) (by omega)),
      Ne.symm (ofNat_ne_zero (by omega) (by omega)), Ne.symm (ofNat_ne_zero (by omega) (by omega))⟩

/-- A text without zero characters has no zero byte. -/
theorem zero_notMem_encode {t : Text} (h : '\x00' ∉ t) : 0 ∉ encode t := by
  intro h0
  obtain ⟨c, hc, hb⟩ := List.mem_flatMap.1 h0
  exact zero_notMem_utf8EncodeChar (fun he => h (he ▸ hc)) hb

end LayeredFix.Utf8
