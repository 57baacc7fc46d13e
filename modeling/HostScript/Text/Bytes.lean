/-!
# Texts as bytes

A text seen as the bytes of its encoding, which is how scripts index it and range over it.
-/

namespace HostScript.Text

def bytes (s : String) : List UInt8 :=
  s.toByteArray.toList

end HostScript.Text
