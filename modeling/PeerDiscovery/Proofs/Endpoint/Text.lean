import PeerDiscovery.Proofs.Endpoint

/-! The texts of endpoints, and which of them read back: `Endpoint.text_round_trip`.
No two endpoints have the same text, not even where the text does not read back (`text_injective`). -/
namespace PeerDiscovery
namespace Endpoint

theorem head?_dropWhile_ne (c : Char) (text : List Char) :
    (text.dropWhile fun d => decide (d = c)).head? ≠ some c := by
  intro h
  have hn := List.head?_dropWhile_not (fun d => decide (d = c)) text
  rw [h] at hn
  simp at hn

/-- What is left of an address has no bracket at an end where one is left out. -/
theorem ends_stripBrackets (text : List Char) :
    (stripBrackets text).head? ≠ some '[' ∧ (stripBrackets text).getLast? ≠ some ']' := by
  have hlast : (stripBrackets text).getLast? ≠ some ']' := by
    rw [stripBrackets, List.getLast?_reverse]
    exact head?_dropWhile_ne ']' _
  refine ⟨fun hh => ?_, hlast⟩
  have hfront : stripBrackets text <+: text.dropWhile fun d => decide (d = '[') := by
    rw [stripBrackets, ← List.reverse_suffix, List.reverse_reverse]
    exact List.dropWhile_suffix _
  obtain ⟨rest, hrest⟩ := hfront
  have hopen := head?_dropWhile_ne '[' text
  rw [← hrest, List.head?_append, hh] at hopen
  exact hopen rfl

theorem readable_of_parse {text : String} {e : Endpoint} (h : parse text = .ok e) : Readable e.address := by
  unfold parse at h
  split at h
  · cases h
  · next scheme rest _ =>
    split at h
    · cases h
    · split at h
      · cases h
      · next address port _ =>
        split at h
        · cases h
        · split at h
          · cases h
          · next hne =>
            obtain rfl := Except.ok.inj h
            obtain ⟨hhead, hlast⟩ := ends_stripBrackets address
            have hl : (String.ofList (stripBrackets address)).toList = stripBrackets address := String.toList_ofList
            exact ⟨by rwa [hl], by rwa [hl], by rwa [hl]⟩

theorem name_injective {s t : Transport} (h : s.name = t.name) : s = t := by
  have hs := Transport.ofName?_name s
  rw [h, Transport.ofName?_name] at hs
  exact (Option.some.inj hs).symm

theorem colon_not_mem_name (t : Transport) : ':' ∉ t.name.toList := by
  cases t <;> decide

theorem colon_not_mem_print (n : Nat) : ':' ∉ Decimal.print n :=
  fun h => absurd (Decimal.isDigit_of_mem_print h) (by decide)

theorem quoted_injective {e e' : Endpoint} (h : e.quoted = e'.quoted) : e.address = e'.address := by
  apply String.toList_inj.1
  unfold quoted at h
  split at h
  · next hc =>
    split at h
    · exact List.append_cancel_right (List.cons.inj h).2
    · next hc' =>
      rw [← h] at hc'
      exact absurd (List.mem_append_left _ (List.mem_cons_of_mem _ hc)) hc'
  · next hc =>
    split at h
    · next hc' =>
      rw [h] at hc
      exact absurd (List.mem_append_left _ (List.mem_cons_of_mem _ hc')) hc
    · exact h

theorem text_injective {e e' : Endpoint} (h : e.text = e'.text) : e = e' := by
  have hl := congrArg String.toList h
  rw [toList_text, toList_text] at hl
  have hcut := congrArg (Text.cut? [':', '/', '/']) hl
  rw [Text.cut?_append (colon_not_mem_name _), Text.cut?_append (colon_not_mem_name _), Option.some.injEq,
    Prod.mk.injEq] at hcut
  obtain ⟨htransport, hrest⟩ := hcut
  have hlast := congrArg (Text.cutLast? ':') hrest
  rw [Text.cutLast?_append (colon_not_mem_print _), Text.cutLast?_append (colon_not_mem_print _), Option.some.injEq,
    Prod.mk.injEq] at hlast
  obtain ⟨hquoted, hport⟩ := hlast
  have hp : e.port.toNat = e'.port.toNat := by
    rw [← Decimal.value_print e.port.toNat, hport, Decimal.value_print]
  obtain ⟨transport, address, port⟩ := e
  obtain ⟨transport', address', port'⟩ := e'
  obtain rfl : transport = transport' := name_injective (String.toList_inj.1 htransport)
  obtain rfl : address = address' := quoted_injective hquoted
  obtain rfl : port = port' := UInt16.toNat_inj.1 hp
  rfl

/-- The text of an endpoint reads back if and only if its address is there and has no bracket at an end where one
is left out. Whatever is read has such an address, so its text reads back; and no other endpoint has the same text. -/
theorem text_round_trip (e : Endpoint) :
    (parse e.text = .ok e ↔ Readable e.address) ∧
    (∀ text, parse text = .ok e → Readable e.address ∧ parse e.text = .ok e) ∧
    (∀ e' : Endpoint, e'.text = e.text → e' = e) := by
  have hback : parse e.text = .ok e ↔ Readable e.address := ⟨readable_of_parse, parse_text_of_readable⟩
  refine ⟨hback, fun text h => ?_, fun e' h => text_injective h⟩
  have hr := readable_of_parse h
  exact ⟨hr, hback.2 hr⟩

end Endpoint
end PeerDiscovery
