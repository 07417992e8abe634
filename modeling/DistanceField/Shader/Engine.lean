/-!
# Fixed shader code

The vertex stage, and the part of the fragment stage that marches along the rays and lights what
they hit. Neither depends on a scene.
-/

namespace DistanceField.Shader

def ofLines (lines : List String) : String := String.join (lines.map (· ++ "\n"))

def vertex : String := ofLines [
    "#version 450",
    "",
    "layout(location = 0) in vec3 position;",
    "layout(location = 0) out vec2 uv;",
    "",
    "void main() \x7b",
    "    uv = position.xy;",
    "    gl_Position = vec4(position, 1.0);",
    "\x7d"]

/-- The ray marcher. It calls `distance_map`, whose result holds a colour and a distance. -/
def engine : String := ofLines [
    "vec3 estimate_normal(vec3 p) \x7b",
    "    float h = 0.0001;",
    "    vec2 k = vec2(1.0, -1.0);",
    "    return normalize(",
    "        k.xyy * distance_map(p + k.xyy * h).w +",
    "        k.yyx * distance_map(p + k.yyx * h).w +",
    "        k.yxy * distance_map(p + k.yxy * h).w +",
    "        k.xxx * distance_map(p + k.xxx * h).w",
    "    );",
    "\x7d",
    "",
    "float soft_shadow(vec3 ro, vec3 rd, float mint, float w) \x7b",
    "    float res = 1.0;",
    "    float t = mint;",
    "    for (int i = 0; i < MAX_ITER && t < MAX_DIST; i++) \x7b",
    "        float h = distance_map(ro + t * rd).w;",
    "        res = min(res, h / (w * t));",
    "        t += clamp(h, 0.005, 0.5);",
    "        if (res < -1.0 || t > MAX_DIST) \x7b",
    "            break;",
    "        \x7d",
    "    \x7d",
    "    res = max(res, -1.0);",
    "    return 0.25 * (1.0 + res) * (1.0 + res) * (2.0 - res);",
    "\x7d",
    "",
    "float ambient_occlusion(vec3 pos, vec3 nor) \x7b",
    "    float occ = 0.0;",
    "    float sca = 1.0;",
    "    for (int i = 0; i < 5; i++) \x7b",
    "        float h = 0.001 + 0.15 * float(i) / 4.0;",
    "        float d = distance_map(pos + h * nor).w;",
    "        occ += (h - d) * sca;",
    "        sca *= 0.95;",
    "    \x7d",
    "    return clamp(1.0 - 1.5 * occ, 0.0, 1.0);",
    "\x7d",
    "",
    "void main() \x7b",
    "    vec3 origin = vec3(0.0);",
    "    vec3 dir = normalize(vec3(uv.x * aspect, uv.y, 1.0));",
    "    float travel = 0.0;",
    "    vec3 color = SURFACE_COLOR;",
    "",
    "    for (int i = 0; i < MAX_ITER; i++) \x7b",
    "        vec4 data = distance_map(origin + travel * dir);",
    "        color = data.xyz;",
    "        travel += data.w;",
    "        if (data.w <= EPSILON || travel >= MAX_DIST) \x7b",
    "            break;",
    "        \x7d",
    "    \x7d",
    "",
    "    vec3 hit = origin + travel * dir;",
    "    vec3 nor = estimate_normal(hit);",
    "",
    "    // key light",
    "    vec3 lig = normalize(LIGHT_DIR);",
    "    vec3 hal = normalize(lig - dir);",
    "    float shad = soft_shadow(hit, lig, 10.0 * EPSILON, 0.1);",
    "    float dif = clamp(dot(nor, lig), 0.0, 1.0) * shad;",
    "    float spe = pow(clamp(dot(nor, hal), 0.0, 1.0), 16.0) * dif",
    "        * (0.04 + 0.96 * pow(clamp(1.0 + dot(hal, dir), 0.0, 1.0), 5.0));",
    "",
    "    color = 1.2 * dif * color + 12.0 * spe * color;",
    "",
    "    // ambient",
    "    float occ = ambient_occlusion(hit, nor);",
    "    color += occ * vec3(0.0, 0.08, 0.1);",
    "",
    "    float fog = min(travel / MAX_DIST, 1.0);",
    "    frag_color = vec4(mix(color, SKY_COLOR, fog), 1.0);",
    "\x7d"]

end DistanceField.Shader
