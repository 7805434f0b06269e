import Availability.Namespace.Form
import Availability.Proofs.Json.Record
import Availability.Proofs.Namespace.Rules

/-!
# Namespaces in a text

The text of a namespace is that of its bytes, so that it could be the text of any bytes. What
becomes of it is what becomes of the bytes themselves.

* `Namespace.decoder_ofBytes`, `Namespace.ofText_render_ofBytes` – the text of some bytes is read
  **as the bytes are**: as the namespace that is made of them, or refused for the same cause;
* `Namespace.decoder_toJson` – so a well-formed namespace is read back.
-/

namespace Availability.Namespace

/-- The text of some bytes is read as the bytes are. -/
theorem decoder_ofBytes (bs : Bytes) : decoder (.ofBytes bs) = (ofRaw bs).mapError .refused := by
  have htext : Decoder.narrowed .string Base64.decode? (.ofBytes bs) = .ok bs :=
    Decoder.narrowed_eq_ok (Decoder.string_str _) (Base64.decode?_encode bs)
  rw [decoder, Decoder.refined, Decoder.thenTry, htext]
  rfl

/-- **Some bytes are read from their text** just as they are made into a namespace. -/
theorem ofText_render_ofBytes (bs : Bytes) :
    Decoder.ofText (JsonForm.read : Decoder Namespace) (Json.ofBytes bs).render =
      (ofRaw bs).mapError .refused := by
  rw [Decoder.ofText_render _ (Json.plain_ofBytes bs)]
  exact decoder_ofBytes bs

/-- **A well-formed namespace is read back.** -/
theorem decoder_toJson {ns : Namespace} (h : ns.validate = .ok ()) :
    decoder ns.toJson = .ok ns := by
  refine (decoder_ofBytes ns.bytes).trans ?_
  rw [ofRaw_eq_ok_iff.mpr ⟨rfl, h⟩]
  rfl

theorem plain_toJson (ns : Namespace) : ns.toJson.Plain :=
  .str _

end Availability.Namespace
