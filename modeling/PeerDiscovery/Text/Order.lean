import PeerDiscovery.Bytes

/-! The order of texts by their UTF-8 bytes: a strict linear order. -/
namespace PeerDiscovery
namespace Text

def Before (s t : String) : Prop := Bytes.ofText s < Bytes.ofText t

instance (s t : String) : Decidable (Before s t) := inferInstanceAs (Decidable (_ < _))

theorem Before.trans {s t u : String} (h : Before s t) (h' : Before t u) : Before s u :=
  List.lt_trans h h'

theorem Before.irrefl (s : String) : ¬Before s s := List.lt_irrefl _

theorem Before.asymm {s t : String} (h : Before s t) : ¬Before t s :=
  fun h' => Before.irrefl s (h.trans h')

theorem eq_of_not_before {s t : String} (h : ¬Before s t) (h' : ¬Before t s) : s = t :=
  Bytes.ofText_injective (List.le_antisymm h' h)

end Text
end PeerDiscovery
