import DockerPlugin.PicojsonSuffix
import DockerPlugin.DriverRequests

namespace DockerPlugin
open Octets Picojson

theorem parseObject_ok_iff {text : Bytes} {o : Object} : parseObject text = .ok o ↔ parse text = .ok (.object o) := by
  rw [parseObject]
  cases parse text with
  | ok v =>
    cases v with
    | object members => simp
    | _ => simp
  | error err => simp
  | overflow => simp

theorem fromJson_append (t : RequestType) {text : Bytes} {o : Object} (parsed : parseObject text = .ok o) (tail : Bytes) :
    fromJson t (text ++ tail) = fromJson t text := by
  have first := parseObject_ok_iff.mp parsed
  rw [fromJson_parsed first, fromJson_parsed (parse_append first tail)]

/-- Whatever comes behind the object of a body is ignored: the object is the one without it, and so is
everything that a plugin does with the request. -/
theorem trailing_bytes_ignored {text : Bytes} {o : Object} (parsed : parseObject text = .ok o) (tail : Bytes) :
    parseObject (text ++ tail) = .ok o ∧
      ∀ (δ : Type) (p : Plugin δ) (url : Bytes) (drivers : δ),
        p.answer url (text ++ tail) drivers = p.answer url text drivers := by
  refine ⟨parseObject_ok_iff.mpr (parse_append (parseObject_ok_iff.mp parsed) tail), fun δ p url drivers => ?_⟩
  simp only [Plugin.answer, fromJson_append _ parsed tail]

/-- The name of a volume in a body that goes on with another one. -/
theorem trailing_bytes_ignored_volume :
    parseObject (namedVolume ++ namedVolume) = .ok [(bytes "Name", .string (bytes "v"))] ∧
      ∀ (δ : Type) (p : Plugin δ) (url : Bytes) (drivers : δ),
        p.answer url (namedVolume ++ namedVolume) drivers = p.answer url namedVolume drivers :=
  trailing_bytes_ignored (parseObject_ok_iff.mpr namedVolume_parse) namedVolume

/-- A body is accepted that goes on behind its object with something other than white space. -/
theorem trailing_garbage_accepted :
    parseObject (bytes "\x7b\"Name\":\"v\"\x7d garbage") = .ok [(bytes "Name", .string (bytes "v"))] ∧
      (bytes " garbage").all Input.isSpace = false := by
  have written : bytes "\x7b\"Name\":\"v\"\x7d garbage" = namedVolume ++ bytes " garbage" := by decide
  refine ⟨?_, by decide⟩
  rw [written, parseObject_ok_iff]
  exact parse_append namedVolume_parse _

end DockerPlugin
